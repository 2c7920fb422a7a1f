import WordMachine.Machine.Flags
import WordMachine.Program

/-!
# Processor state

The registers, the instruction pointer and the flags: everything but memory.  A
stack pointer of zero means an empty stack.
-/

namespace WordMachine

structure Cpu where
  registers : Vector Word 16 := Vector.replicate 16 0
  stackPointer : Word := 0
  basePointer : Word := 0
  /-- The number of the next instruction, not a byte address. -/
  instructionPointer : Word := 0
  flags : Flags := {}
  halted : Bool := false
  deriving DecidableEq

namespace Cpu

/-- A fresh processor at the first instruction of a program. -/
def ofProgram (program : Program) : Cpu := { instructionPointer := program.textStart }

def get (cpu : Cpu) : Register → Word
  | .general index => cpu.registers.get index
  | .stackPointer => cpu.stackPointer
  | .basePointer => cpu.basePointer

def set (cpu : Cpu) (register : Register) (value : Word) : Cpu :=
  match register with
  | .general index => { cpu with registers := cpu.registers.set index.val value index.isLt }
  | .stackPointer => { cpu with stackPointer := value }
  | .basePointer => { cpu with basePointer := value }

theorem get_general (cpu : Cpu) (index : Fin 16) :
    cpu.get (.general index) = cpu.registers[index] := rfl

theorem get_set (cpu : Cpu) (register other : Register) (value : Word) :
    (cpu.set register value).get other = if other = register then value else cpu.get other := by
  cases register with
  | general index =>
      cases other with
      | general index' =>
          rw [get_general, get_general]
          simp [set, Vector.getElem_set, Fin.ext_iff, eq_comm]
      | stackPointer => rfl
      | basePointer => rfl
  | stackPointer => cases other <;> rfl
  | basePointer => cases other <;> rfl

end Cpu
end WordMachine
