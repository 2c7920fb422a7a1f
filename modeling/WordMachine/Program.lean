import WordMachine.Isa.Opcode
import WordMachine.Isa.Operand
import WordMachine.Symbol

/-!
# Programs

A program is a list of instructions, a symbol table and initial data bytes.
Instructions are numbered from `textStart` on, and jumps name these numbers;
data bytes have addresses from `dataStart` on.
-/

namespace WordMachine

structure Instruction where
  opcode : Opcode
  operands : List Operand
  line : Nat
  /-- The byte column of the mnemonic, counted from one. -/
  column : Nat
  /-- The statement as written, without label and comment. -/
  source : Text
  /-- The instruction's own number. -/
  address : Word
  deriving DecidableEq

namespace Instruction

open Text

/-- The operands in canonical spelling, with commas between. -/
def renderOperands (instruction : Instruction) : Text :=
  [',', ' '].intercalate (instruction.operands.map Operand.render)

def render (instruction : Instruction) : Text :=
  instruction.opcode.mnemonic.toList ++
    if instruction.operands.isEmpty then [] else ' ' :: instruction.renderOperands

end Instruction

structure Program where
  instructions : Array Instruction
  symbols : SymbolTable
  data : Array UInt8
  textStart : Word
  dataStart : Word
  deriving DecidableEq

namespace Program

/-- The instruction with a number. -/
def instructionAt? (program : Program) (address : Word) : Option Instruction :=
  if program.textStart ≤ address then
    program.instructions[address.toNat - program.textStart.toNat]?
  else none

theorem instructionAt?_isSome_iff (program : Program) (address : Word) :
    (program.instructionAt? address).isSome = true ↔
      program.textStart.toNat ≤ address.toNat ∧
        address.toNat < program.textStart.toNat + program.instructions.size := by
  unfold instructionAt?
  by_cases hstart : program.textStart ≤ address
  · have hle : program.textStart.toNat ≤ address.toNat := BitVec.le_def.mp hstart
    rw [if_pos hstart, isSome_getElem?]
    omega
  · have hlt : ¬program.textStart.toNat ≤ address.toNat := fun h => hstart (BitVec.le_def.mpr h)
    simp [hstart, hlt]

/-- One past the address of the last data byte. -/
def dataEnd (program : Program) : Nat := program.dataStart.toNat + program.data.size

end Program
end WordMachine
