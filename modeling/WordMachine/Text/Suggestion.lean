import WordMachine.Text.EditDistance
import WordMachine.Text.Letters
import WordMachine.Text.Utf8

/-!
# Suggestions for a misspelled name

A candidate that contains the name, or is contained in it, comes first; failing
that, the earliest of the candidates at the least edit distance, if that is at
most two.  Letter case does not count.
-/

namespace WordMachine
namespace Text

/-- The furthest edit distance that still counts as a slip of the keyboard. -/
def maxDistance : Nat := 2

/-- Whether `part` is a run of consecutive characters of the text. -/
def occursIn (part : Text) : Text → Bool
  | [] => part.isEmpty
  | c :: rest => part.isPrefixOf (c :: rest) || occursIn part rest

/-- The earliest candidate of least distance to the name. -/
def nearest (name : Text) : (candidates : List Text) → Option (Nat × Text)
  | [] => none
  | candidate :: rest =>
      let distance := editDistance name (upper candidate)
      match nearest name rest with
      | none => some (distance, candidate)
      | some (other, word) =>
          if other < distance then some (other, word) else some (distance, candidate)

/-- Names of one byte are part of far too much, so they are compared by distance alone. -/
def isLongEnough (name : Text) : Bool := 2 ≤ width (name.dropWhile (· == '.'))

def overlaps (name candidate : Text) : Bool :=
  occursIn name (upper candidate) || occursIn (upper candidate) name

def suggest (name : Text) (candidates : List Text) : Option Text :=
  let name := upper name
  match (if isLongEnough name then candidates.find? (overlaps name) else none) with
  | some candidate => some candidate
  | none =>
      match nearest name candidates with
      | some (distance, candidate) => if distance ≤ maxDistance then some candidate else none
      | none => none

end Text
end WordMachine
