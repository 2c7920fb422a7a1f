import WordMachine.Diagnostic.Basic
import WordMachine.Isa.Opcode
import WordMachine.Isa.Register

/-!
# Faults

What the running program can do wrong.  A breakdown is different: the machine or
its host gives up, and no instruction is to blame.
-/

namespace WordMachine

inductive Fault
  | divisionByZero
  | addressOutOfBounds (address : Int)
  | stackUnderflow
  | stackOverflow (stackPointer : Word)
  /-- A return address that is no instruction. -/
  | corruptReturn (target : Word)
  /-- An operand of a shape that the opcode cannot execute, at a position counted from one. -/
  | invalidOperand (opcode : Opcode) (position : Nat)
  | undefinedSymbol (name : Text)
  | unknownCall (number : Word)
  deriving DecidableEq

namespace Fault

open Text

def code : Fault → String
  | divisionByZero => "run::division_by_zero"
  | addressOutOfBounds _ => "run::bounds"
  | stackUnderflow | stackOverflow _ | corruptReturn _ => "run::stack"
  | invalidOperand .. => "run::operand"
  | undefinedSymbol _ => "run::undefined_symbol"
  | unknownCall _ => "run::syscall"

def message : Fault → String
  | divisionByZero => "division by zero"
  | addressOutOfBounds address =>
      "address " ++ String.ofList (signed address) ++ " is out of bounds for a word access"
  | stackUnderflow => "stack underflow: nothing left to pop"
  | stackOverflow stackPointer =>
      "stack overflow: stack pointer " ++ String.ofList (hexWord stackPointer.toNat) ++
        " ran into the data section"
  | corruptReturn target =>
      "corrupted stack: return address " ++ toString target.toNat ++ " is not an instruction"
  | invalidOperand opcode position =>
      "operand " ++ toString position ++ " of `" ++ opcode.mnemonic ++ "` cannot be executed"
  | undefinedSymbol name => "undefined label `" ++ String.ofList name ++ "`"
  | unknownCall number => "unknown syscall " ++ String.ofList (signed number.toInt)

def diagnostic (fault : Fault) (line column : Nat) : Diagnostic :=
  { line, column, code := fault.code, message := fault.message }

end Fault

/-- Why an instruction was not executed. -/
inductive Failure
  | fault (fault : Fault)
  | breakdown (message : String)
  deriving DecidableEq

end WordMachine
