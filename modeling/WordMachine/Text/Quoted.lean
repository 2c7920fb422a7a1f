import WordMachine.Text.Blank

/-!
# Quoted literals

A literal starts at a single or double quote and ends at the next quote of the
same kind.  Inside it a backslash takes the following character with it.
`Quoting` is where a scan from left to right stands; `unescape` reads the body
of a literal.
-/

namespace WordMachine

/-- Where a scan of a line stands with respect to quoted literals. -/
inductive Quoting
  | outside
  | inside (quote : Char)
  /-- After a backslash inside a literal. -/
  | escaped (quote : Char)
  deriving DecidableEq

namespace Quoting

def isQuote (c : Char) : Bool := c == '\'' || c == '"'

theorem isQuote_iff {c : Char} : isQuote c = true ↔ c = '\'' ∨ c = '"' := by
  simp [isQuote]

def next : Quoting → Char → Quoting
  | outside, c => if isQuote c then inside c else outside
  | inside quote, c =>
      if c = '\\' then escaped quote
      else if c = quote then outside
      else inside quote
  | escaped quote, _ => inside quote

/-- The scan after all of a text. -/
def after (quoting : Quoting) (text : Text) : Quoting := text.foldl next quoting

@[simp] theorem after_nil (quoting : Quoting) : quoting.after [] = quoting := rfl

@[simp] theorem after_cons (quoting : Quoting) (c : Char) (text : Text) :
    quoting.after (c :: text) = (quoting.next c).after text := rfl

end Quoting

namespace Text

/-- The characters that may follow a backslash, and what they stand for. -/
def escapeValue : Char → Option Char
  | 'n' => some '\n'
  | 't' => some '\t'
  | 'r' => some '\r'
  | '0' => some '\x00'
  | '\\' => some '\\'
  | '\'' => some '\''
  | '"' => some '"'
  | _ => none

/-- Why the body of a literal cannot be read. -/
inductive EscapeError
  | unknown (c : Char)
  /-- A backslash with nothing after it. -/
  | unfinished
  deriving DecidableEq

def unescape : Text → Except EscapeError Text
  | [] => .ok []
  | c :: rest =>
      if c = '\\' then
        match rest with
        | [] => .error .unfinished
        | e :: rest =>
            match escapeValue e with
            | none => .error (.unknown e)
            | some value => (value :: ·) <$> unescape rest
      else (c :: ·) <$> unescape rest

theorem unescape_escape {escape value : Char} (hvalue : escapeValue escape = some value)
    (rest : Text) : unescape ('\\' :: escape :: rest) = (value :: ·) <$> unescape rest := by
  simp [unescape, hvalue]

theorem unescape_plain {c : Char} (hplain : c ≠ '\\') (rest : Text) :
    unescape (c :: rest) = (c :: ·) <$> unescape rest := by
  rw [unescape.eq_def]
  simp [hplain]

end Text
end WordMachine
