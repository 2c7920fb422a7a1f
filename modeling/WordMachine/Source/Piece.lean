import WordMachine.Text.Quoted
import WordMachine.Text.Utf8

/-!
# Pieces of a line

A piece is a run of characters of a line with the column at which it starts,
counted in bytes from one.  A statement splits into its leading word and the
rest, and an operand list splits at the commas that stand outside quotes and
brackets.
-/

namespace WordMachine

structure Piece where
  text : Text
  column : Nat
  deriving DecidableEq

namespace Piece

open Text

/-- The piece without the blanks around it. -/
def trimmed (piece : Piece) : Piece :=
  { text := trim piece.text
    column := piece.column + (width piece.text - width (trimLeft piece.text)) }

/-- The leading word and what follows it, if anything but blanks does. -/
def splitWord (piece : Piece) : Piece × Option Piece :=
  let word := firstWord piece.text
  let after : Piece := ⟨afterFirstWord piece.text, piece.column + width word⟩
  (⟨word, piece.column⟩,
    if (trim after.text).isEmpty then none else some after.trimmed)

/-- The depth of open brackets after a character; a closing bracket too many is ignored. -/
def nextDepth (depth : Nat) (c : Char) : Nat :=
  if c = '[' then depth + 1 else if c = ']' then depth - 1 else depth

/-- Open brackets are counted in 32 bits. -/
def depthLimit : Nat := 4294967296

/-- Cut a text at its commas outside quotes and brackets, unless too many brackets are open. -/
def segments? (quoting : Quoting) (depth : Nat) : Text → Option (List Text)
  | [] => some [[]]
  | c :: rest =>
      if quoting = .outside ∧ c = ',' ∧ depth = 0 then
        (segments? .outside 0 rest).map ([] :: ·)
      else if quoting = .outside ∧ c = '[' ∧ depthLimit ≤ depth + 1 then none
      else
        let depth := if quoting = .outside then nextDepth depth c else depth
        (segments? (quoting.next c) depth rest).map (·.modifyHead (c :: ·))

@[simp] theorem segments?_nil (quoting : Quoting) (depth : Nat) :
    segments? quoting depth [] = some [[]] := rfl

theorem segments?_comma (rest : Text) :
    segments? .outside 0 (',' :: rest) = (segments? .outside 0 rest).map ([] :: ·) := by
  simp [segments?]

theorem segments?_overflow {depth : Nat} (hfull : depthLimit ≤ depth + 1) (rest : Text) :
    segments? .outside depth ('[' :: rest) = none := by
  simp [segments?, hfull]

theorem segments?_outside {depth : Nat} {c : Char} (hcomma : c = ',' → depth ≠ 0)
    (hcounted : c = '[' → depth + 1 < depthLimit) (rest : Text) :
    segments? .outside depth (c :: rest) =
      (segments? (Quoting.outside.next c) (nextDepth depth c) rest).map
        (·.modifyHead (c :: ·)) := by
  rw [segments?, if_neg fun hcut => hcomma hcut.2.1 hcut.2.2,
    if_neg fun hfull => Nat.not_lt_of_le hfull.2.2 (hcounted hfull.2.1)]
  rfl

theorem segments?_inside {quoting : Quoting} (hinside : quoting ≠ .outside) (depth : Nat)
    (c : Char) (rest : Text) :
    segments? quoting depth (c :: rest) =
      (segments? (quoting.next c) depth rest).map (·.modifyHead (c :: ·)) := by
  simp [segments?, hinside]

/-- Consecutive segments, one character apart, as pieces from a column on. -/
def place (column : Nat) : List Text → List Piece
  | [] => []
  | segment :: rest => ⟨segment, column⟩ :: place (column + width segment + 1) rest

/-- The operands of a list; one that is blank is kept, so that it can be reported.  There are none
if the list opens more brackets than can be counted. -/
def splitOperands (piece : Piece) : Option (List Piece) :=
  (segments? .outside 0 piece.text).map fun segments =>
    (place piece.column segments).map trimmed

end Piece
end WordMachine
