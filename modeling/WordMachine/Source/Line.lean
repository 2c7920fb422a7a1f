import WordMachine.Source.Piece
import WordMachine.Text.Lines

/-!
# Source lines

A line that holds more than blanks and a comment has an optional label, marked
by a colon, and an optional statement.  `SourceLine.ofText` lists these lines of
a source text with their numbers.
-/

namespace WordMachine

structure SourceLine where
  /-- The number of the line, counted from one. -/
  number : Nat
  /-- The line without its comment and the blanks before that. -/
  code : Text
  label : Option Piece
  statement : Option Piece
  deriving DecidableEq

namespace SourceLine

open Text

/-- Cut a comment off: it starts at `;` or `//` outside quotes. -/
def stripComment (quoting : Quoting) : Text → Text
  | [] => []
  | c :: rest =>
      if quoting = .outside ∧ (c = ';' ∨ c = '/' ∧ rest.head? = some '/') then []
      else c :: stripComment (quoting.next c) rest

@[simp] theorem stripComment_nil (quoting : Quoting) : stripComment quoting [] = [] := rfl

theorem stripComment_outside {c : Char} {rest : Text}
    (hmarker : ¬(c = ';' ∨ c = '/' ∧ rest.head? = some '/')) :
    stripComment .outside (c :: rest) = c :: stripComment (Quoting.outside.next c) rest := by
  simp [stripComment, hmarker]

theorem stripComment_inside {quoting : Quoting} (hinside : quoting ≠ .outside) (c : Char)
    (rest : Text) :
    stripComment quoting (c :: rest) = c :: stripComment (quoting.next c) rest := by
  simp [stripComment, hinside]

/-- Whether a character may stand in front of a label's colon. -/
def isLabelChar (c : Char) : Bool :=
  !isBlank c && !(c ∈ [':', ';', ',', '\'', '"', '[', ']', '#'])

/-- Split code at the colon of a label: its name and what follows the colon. -/
def splitLabel? (code : Text) : Option (Text × Text) :=
  let name := code.takeWhile isLabelChar
  match trimLeft (code.dropWhile isLabelChar) with
  | ':' :: rest => if name.isEmpty then none else some (name, rest)
  | _ => none

theorem splitLabel?_colon {code rest : Text}
    (hcolon : trimLeft (code.dropWhile isLabelChar) = ':' :: rest) :
    splitLabel? code =
      if (code.takeWhile isLabelChar).isEmpty then none
      else some (code.takeWhile isLabelChar, rest) := by
  unfold splitLabel?
  rw [hcolon]
  rfl

theorem splitLabel?_of_head?_ne {code : Text}
    (hcolon : (trimLeft (code.dropWhile isLabelChar)).head? ≠ some ':') :
    splitLabel? code = none := by
  unfold splitLabel?
  dsimp only
  split
  next rest heq =>
    rw [heq] at hcolon
    exact absurd rfl hcolon
  · rfl

/-- The label and the statement of a line's code. -/
def splitCode (code : Text) : Option Piece × Option Piece :=
  let start := (⟨code, 1⟩ : Piece).trimmed
  match splitLabel? start.text with
  | none => (none, some start)
  | some (name, rest) =>
      let after : Piece := ⟨rest, start.column + (width start.text - width rest)⟩
      (some ⟨name, start.column⟩,
        if (trim rest).isEmpty then none else some after.trimmed)

/-- Read one line; a line of blanks and comment alone has nothing to say. -/
def read? (number : Nat) (raw : Text) : Option SourceLine :=
  let code := trimRight (stripComment .outside raw)
  if code.isEmpty then none
  else
    let (label, statement) := splitCode code
    some { number, code, label, statement }

/-- The lines of a source text that are not blank. -/
def ofText (source : Text) : List SourceLine :=
  ((lines source).zipIdx 1).filterMap fun line => read? line.2 line.1

end SourceLine
end WordMachine
