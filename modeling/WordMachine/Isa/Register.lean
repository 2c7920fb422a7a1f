import WordMachine.Text.Letters
import WordMachine.Text.Numeral

/-!
# Registers

Sixteen general registers, a stack pointer and a base pointer.  A register is
written by its name in either case; general registers are numbered without
leading zeros.
-/

namespace WordMachine

/-- A machine word, read as signed or unsigned as the operation needs. -/
abbrev Word := BitVec 16

inductive Register
  | general (index : Fin 16)
  | stackPointer
  | basePointer
  deriving DecidableEq

namespace Register

open Text

def render : Register → Text
  | general index => 'R' :: decimal index.val
  | stackPointer => "SP".toList
  | basePointer => "BP".toList

/-- The index that follows the `R` of a general register. -/
def index? (digits : Text) : Option (Fin 16) :=
  if 1 < digits.length ∧ digits.head? = some '0' then none
  else
    match value? 10 digits with
    | none => none
    | some index => if h : index < 16 then some ⟨index, h⟩ else none

def ofText? (name : Text) : Option Register :=
  if upper name = "SP".toList then some stackPointer
  else if upper name = "BP".toList then some basePointer
  else
    match name with
    | 'r' :: digits | 'R' :: digits => general <$> index? digits
    | _ => none

/-- Every register, in the order in which they are listed. -/
def all : List Register :=
  (List.finRange 16).map general ++ [stackPointer, basePointer]

end Register
end WordMachine
