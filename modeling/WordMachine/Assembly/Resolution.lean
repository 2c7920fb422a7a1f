import WordMachine.Assembly.Layout
import WordMachine.Program

/-!
# Resolution

With every symbol placed, operands are read and checked against their opcode's
signature.  After all of them have been read, names must be defined and branches
must name a label of the text section.
-/

namespace WordMachine
namespace Layout

def operand (layout : Layout) (line : Nat) (piece : Piece) : Except AssemblyFailure Operand :=
  if piece.text.isEmpty then reject (.operand (.badOperand [])) line piece.column
  else
    match Operand.parse layout.symbols piece.text with
    | .ok operand => .ok operand
    | .error error => reject (.operand error) line piece.column

/-- A wrong count is the instruction's fault, a wrong kind that of the operand. -/
def signatureColumn (entry : Entry) (pieces : List Piece) : SignatureError → Nat
  | .count .. => entry.column
  | .kind _ position _ _ =>
      match pieces[position]? with
      | some piece => piece.column
      | none => entry.column

def instruction (layout : Layout) (entry : Entry) (index : Nat) :
    Except AssemblyFailure Instruction := do
  let pieces ← operandPieces entry.operands
  let operands ← pieces.mapM (layout.operand entry.line)
  match entry.opcode.check operands with
  | .error error =>
      reject (.signature error) entry.line (signatureColumn entry pieces error)
  | .ok () =>
      .ok
        { opcode := entry.opcode
          operands
          line := entry.line
          column := entry.column
          source := entry.source
          address := BitVec.ofNat 16 (layout.textStart + index) }

def resolve (layout : Layout) : Except AssemblyFailure (List Instruction) :=
  (layout.entries.toList.zipIdx).mapM fun entry => layout.instruction entry.1 entry.2

/-- A name must be defined, and one that is branched to must be a code label. -/
def validateName (layout : Layout) (instruction : Instruction) (name : Text) :
    Except AssemblyFailure Unit :=
  match layout.symbols.get? name with
  | none =>
      reject (.operand (.undefinedSymbol name)) instruction.line instruction.column
  | some symbol =>
      if instruction.opcode.isBranch ∧ symbol.kind ≠ .code then
        reject (.notCodeLabel name) instruction.line instruction.column
      else .ok ()

def validate (layout : Layout) (instruction : Instruction) : Except AssemblyFailure Unit :=
  (instruction.operands.filterMap Operand.labelName?).forM (layout.validateName instruction)

def program (layout : Layout) : Except AssemblyFailure Program := do
  let instructions ← layout.resolve
  instructions.forM layout.validate
  .ok
    { instructions := instructions.toArray
      symbols := layout.symbols
      data := layout.data
      textStart := BitVec.ofNat 16 layout.textStart
      dataStart := BitVec.ofNat 16 layout.dataStart }

end Layout

/-- Assemble a source text, or answer its first fault. -/
def assemble (source : Text) : Except AssemblyFailure Program := do
  (← Layout.ofText source).program

end WordMachine
