import WordMachine.Text.Lines
import WordMachine.Text.Utf8

/-!
# Spans

A span is a range of bytes of a source text.  `Span.ofColumn` finds the token at
a line and a column; a column inside a character names no position.
-/

namespace WordMachine

structure Span where
  offset : Nat
  length : Nat
  deriving DecidableEq

/-- A byte position that falls between the bytes of one character. -/
inductive SpanError
  | insideCharacter
  deriving DecidableEq

namespace Span

open Text

/-- Drop the characters that make up the first `bytes` bytes. -/
def dropBytes : (bytes : Nat) → Text → Except SpanError Text
  | 0, text => .ok text
  | _ + 1, [] => .error .insideCharacter
  | bytes + 1, c :: rest =>
      if c.utf8Size ≤ bytes + 1 then dropBytes (bytes + 1 - c.utf8Size) rest
      else .error .insideCharacter
termination_by _ text => text.length

/-- The length of the token at the start of a text: at least one byte, where there is one. -/
def tokenLength (rest : Text) : Nat :=
  let token := (trimRight rest).takeWhile fun c => !isBlank c && c != ','
  min (max (width token) 1) (max (width rest) 1)

/-- The token at a column of a line, which starts at byte `start`. -/
def inLine (start : Nat) (line : Text) (column : Nat) : Except SpanError Span := do
  let column := min (column - 1) (width (trimRight line))
  let rest ← dropBytes column line
  .ok ⟨start + column, tokenLength rest⟩

/-- The token at a place in the source; line zero and lines past the end have none. -/
def ofColumn (source : Text) (line column : Nat) : Except SpanError (Option Span) :=
  let parts := lineParts source
  if line = 0 then .ok none
  else
    match parts[line - 1]? with
    | none => .ok none
    | some part => some <$> inLine (width (parts.take (line - 1)).flatten) part column

end Span
end WordMachine
