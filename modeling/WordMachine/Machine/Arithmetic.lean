import WordMachine.Isa.Register
import WordMachine.Machine.Fault

/-!
# Arithmetic on words

Each operation gives a word and tells whether the unsigned result carried and
the signed result overflowed.  Multiplication saturates; division truncates
toward zero; shifts take the low four bits of their amount.
-/

namespace WordMachine

structure Outcome where
  value : Word
  carry : Bool := false
  overflow : Bool := false
  deriving DecidableEq

namespace Arithmetic

def add (a b : Word) : Outcome :=
  { value := a + b, carry := BitVec.uaddOverflow a b, overflow := BitVec.saddOverflow a b }

def sub (a b : Word) : Outcome :=
  { value := a - b, carry := BitVec.usubOverflow a b, overflow := BitVec.ssubOverflow a b }

def minSigned : Int := -32768

def maxSigned : Int := 32767

/-- The signed product, kept within the signed range. -/
def mul (a b : Word) : Outcome :=
  let product := a.toInt * b.toInt
  let clamped := max minSigned (min product maxSigned)
  let saturated := clamped != product
  { value := BitVec.ofInt 16 clamped, carry := saturated, overflow := saturated }

/-- Only the quotient of the least value by minus one leaves the signed range. -/
def divOverflows (a b : Word) : Bool := a == BitVec.ofInt 16 minSigned && b == -1

def div (a b : Word) : Except Fault Outcome :=
  if b = 0 then .error .divisionByZero
  else .ok { value := a.sdiv b, overflow := divOverflows a b }

/-- The remainder has the sign of `a`. -/
def mod (a b : Word) : Except Fault Outcome :=
  if b = 0 then .error .divisionByZero
  else .ok { value := a.srem b, overflow := divOverflows a b }

def shiftAmount (b : Word) : Nat := b.toNat % 16

def shl (a b : Word) : Outcome := { value := a <<< shiftAmount b }

def shr (a b : Word) : Outcome := { value := a >>> shiftAmount b }

end Arithmetic
end WordMachine
