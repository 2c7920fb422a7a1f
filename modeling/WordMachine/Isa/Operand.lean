import WordMachine.Isa.Register

/-!
# Operands

What an instruction works on: a register, a value, a place in data memory or a
name that is resolved when the instruction runs.  `render` is the canonical
spelling, as a disassembly shows it.
-/

namespace WordMachine

/-- Where a memory operand points. -/
inductive Address
  | absolute (address : Word)
  | label (name : Text)
  /-- The unsigned value of a register, moved by a signed offset. -/
  | indirect (base : Register) (offset : Int)
  deriving DecidableEq

inductive Operand
  | register (register : Register)
  | immediate (value : Int)
  | memory (address : Address)
  | label (name : Text)
  deriving DecidableEq

inductive OperandKind
  | register | immediate | memory | label
  deriving DecidableEq

def OperandKind.describe : OperandKind → String
  | register => "a register"
  | immediate => "an immediate"
  | memory => "a memory reference"
  | label => "a label"

namespace Address

open Text

def isIndirect : Address → Bool
  | indirect _ _ => true
  | _ => false

/-- A signed offset with its sign always written; zero is left out. -/
def renderOffset (offset : Int) : Text :=
  if offset = 0 then []
  else if offset < 0 then '-' :: decimal offset.natAbs
  else '+' :: decimal offset.natAbs

def renderBody : Address → Text
  | absolute address => hexWord address.toNat
  | label name => name
  | indirect base offset => base.render ++ renderOffset offset

def render (address : Address) : Text := '[' :: address.renderBody ++ [']']

end Address

namespace Operand

open Text

def kind : Operand → OperandKind
  | register _ => .register
  | immediate _ => .immediate
  | memory _ => .memory
  | label _ => .label

/-- The name that the operand refers to, if it refers to one. -/
def labelName? : Operand → Option Text
  | label name | memory (.label name) => some name
  | _ => none

def render : Operand → Text
  | register r => r.render
  | immediate value => '#' :: signed value
  | memory address => address.render
  | label name => name

end Operand
end WordMachine
