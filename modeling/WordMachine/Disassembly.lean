import WordMachine.Diagnostic.Report
import WordMachine.Program

/-!
# Disassembly

Every instruction in canonical spelling, with its number and its first label;
and reports that show where an instruction stands in the source.
-/

namespace WordMachine

structure DisassemblyLine where
  address : Word
  label : Option Text
  text : Text
  line : Nat
  deriving DecidableEq

namespace DisassemblyLine

open Text

def display (line : DisassemblyLine) : Text :=
  let label := match line.label with
    | some name => name ++ [':']
    | none => []
  hexWord line.address.toNat ++ [' ', ' '] ++ padRight 12 label ++ line.text

end DisassemblyLine

namespace Program

open Text

def disassembleAt (program : Program) (instruction : Instruction) : DisassemblyLine :=
  { address := instruction.address
    label := (program.symbols.codeLabelAt? instruction.address).map (·.name)
    text := instruction.render
    line := instruction.line }

def disassemble (program : Program) : List DisassemblyLine :=
  program.instructions.toList.map program.disassembleAt

/-- The bytes of the source that hold the instruction's statement. -/
def statementSpan? (source : Text) (instruction : Instruction) : Option Span :=
  let start := width ((lineParts source).take (instruction.line - 1)).flatten
  let span : Span := ⟨start + instruction.column - 1, width instruction.source⟩
  if span.offset + span.length ≤ width source then some span else none

/-- A report that shows the statement of the instruction at an address. -/
def locate? (program : Program) (source : Text) (address : Word) : Option Report := do
  let instruction ← program.instructionAt? address
  let span ← statementSpan? source instruction
  some
    { severity := .advice
      labels :=
        [(span, "Next instruction, at address " ++ String.ofList (hexWord address.toNat))] }

end Program
end WordMachine
