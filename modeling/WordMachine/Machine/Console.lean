import WordMachine.Text.Blank

/-!
# The console

Program output, cut into lines as it arrives.  `text` is everything written
since the console was cleared: a write appends to it.
-/

namespace WordMachine

structure Console where
  /-- The lines that have been ended, latest first. -/
  finished : List Text := []
  /-- The line that is still open, last character first. -/
  pending : Text := []
  /-- Each text as it was written, latest first. -/
  writes : List Text := []
  deriving DecidableEq

namespace Console

def put (console : Console) (c : Char) : Console :=
  if c = '\n' then
    { console with
      finished := console.pending.reverse :: console.finished
      pending := [] }
  else { console with pending := c :: console.pending }

def write (console : Console) (text : Text) : Console :=
  { text.foldl put console with writes := text :: console.writes }

def newline (console : Console) : Console := console.write ['\n']

/-- Forget everything that was written. -/
def clear (_console : Console) : Console := {}

/-- The finished lines, and then the open one if there is anything on it. -/
def lines (console : Console) : List Text :=
  console.finished.reverse ++
    if console.pending.isEmpty then [] else [console.pending.reverse]

def isEmpty (console : Console) : Bool := console.finished.isEmpty && console.pending.isEmpty

/-- Everything that is on the console. -/
def text (console : Console) : Text :=
  (console.finished.reverse.flatMap (· ++ ['\n'])) ++ console.pending.reverse

theorem text_put (console : Console) (c : Char) :
    (console.put c).text = console.text ++ [c] := by
  unfold put text
  split <;> simp_all

theorem text_foldl_put (console : Console) (text : Text) :
    (text.foldl put console).text = console.text ++ text := by
  induction text generalizing console with
  | nil => simp
  | cons c rest ih => simp [ih, text_put]

theorem text_write (console : Console) (text : Text) :
    (console.write text).text = console.text ++ text :=
  text_foldl_put console text

/-- What was written since an earlier state of the same console, in order. -/
def writesSince (console earlier : Console) : List Text :=
  (console.writes.take (console.writes.length - earlier.writes.length)).reverse

end Console
end WordMachine
