import WordMachine.Isa.Opcode
import WordMachine.Isa.Operand

/-!
# Signatures

How many operands an opcode takes and which kinds it accepts at each position.
`check?` names the first operand that does not fit.
-/

namespace WordMachine

inductive SignatureError
  | count (opcode : Opcode) (found : Nat)
  /-- The operand at `position`, counted from zero, is of a kind that is not accepted there. -/
  | kind (opcode : Opcode) (position : Nat) (accepted : List OperandKind) (found : OperandKind)
  deriving DecidableEq

namespace Opcode

def value : List OperandKind := [.register, .immediate, .label]

def target : List OperandKind := [.label, .immediate]

/-- The accepted kinds for each operand in turn. -/
def signature : Opcode → List (List OperandKind)
  | mov | add | sub | mul | div | mod | cmp | and | or | xor | shl | shr => [[.register], value]
  | load => [[.register], [.memory]]
  | store => [[.memory], value]
  | push => [value]
  | pop | inc | dec | neg | not => [[.register]]
  | jmp | je | jnz | jg | jge | jl | jle | jc | jnc | call => [target]
  | sys => [[.immediate]]
  | ret | nop | hlt => []

/-- The first operand of a kind that its position does not accept. -/
def firstMismatch (opcode : Opcode) (position : Nat) :
    List (List OperandKind) → List Operand → Except SignatureError Unit
  | accepted :: signature, operand :: operands =>
      if operand.kind ∈ accepted then opcode.firstMismatch (position + 1) signature operands
      else .error (.kind opcode position accepted operand.kind)
  | _, _ => .ok ()

def check (opcode : Opcode) (operands : List Operand) : Except SignatureError Unit :=
  if operands.length = opcode.signature.length then
    opcode.firstMismatch 0 opcode.signature operands
  else .error (.count opcode operands.length)

end Opcode

namespace SignatureError

/-- A list of kinds in words: `a, b or c`. -/
def describe (kinds : List OperandKind) : String :=
  match kinds.reverse with
  | [] => ""
  | [only] => only.describe
  | last :: others =>
      String.intercalate ", " (others.reverse.map (·.describe)) ++ " or " ++ last.describe

/-- The operand that the error points at, counted from zero. -/
def position : SignatureError → Nat
  | count _ _ => 0
  | kind _ position _ _ => position

def message : SignatureError → String
  | count opcode found =>
      let expected := opcode.signature.length
      "`" ++ opcode.mnemonic ++ "` expects " ++ toString expected ++ " operand" ++
        (if expected = 1 then "" else "s") ++ ", found " ++ toString found
  | kind opcode position accepted found =>
      "operand " ++ toString (position + 1) ++ " of `" ++ opcode.mnemonic ++ "` must be " ++
        describe accepted ++ ", found " ++ found.describe

end SignatureError
end WordMachine
