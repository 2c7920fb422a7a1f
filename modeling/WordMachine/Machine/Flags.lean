import WordMachine.Isa.Opcode
import WordMachine.Isa.Register

/-!
# Condition flags

What an instruction leaves behind about its result, and which jumps it makes
pass.
-/

namespace WordMachine

structure Flags where
  zero : Bool := false
  negative : Bool := false
  carry : Bool := false
  overflow : Bool := false
  deriving DecidableEq

namespace Flags

def ofResult (result : Word) (carry overflow : Bool) : Flags :=
  { zero := result == 0, negative := result.msb, carry, overflow }

/-- Whether a branch is taken.  Other opcodes never jump. -/
def jumps (flags : Flags) : Opcode → Bool
  | .jmp | .call => true
  | .je => flags.zero
  | .jnz => !flags.zero
  | .jg => !flags.zero && flags.negative == flags.overflow
  | .jge => flags.negative == flags.overflow
  | .jl => flags.negative != flags.overflow
  | .jle => flags.zero || flags.negative != flags.overflow
  | .jc => flags.carry
  | .jnc => !flags.carry
  | _ => false

def bit (set : Bool) : String := if set then "1" else "0"

def display (flags : Flags) : String :=
  "ZF=" ++ bit flags.zero ++ " NF=" ++ bit flags.negative ++ " CF=" ++ bit flags.carry ++
    " OF=" ++ bit flags.overflow

end Flags
end WordMachine
