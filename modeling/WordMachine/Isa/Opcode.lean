import WordMachine.Text.Letters

/-!
# Opcodes

The instructions of the machine, their mnemonics, and the other names under
which some of them may be written.  `all` and `vocabulary` list them in the
order in which suggestions are tried.
-/

namespace WordMachine

inductive Opcode
  | mov | load | store | push | pop
  | add | sub | mul | div | mod | cmp
  | inc | dec | neg | not
  | and | or | xor | shl | shr
  | jmp | je | jnz | jg | jge | jl | jle | jc | jnc
  | call | ret | sys | nop | hlt
  deriving DecidableEq

namespace Opcode

open Text

def all : List Opcode :=
  [mov, load, store, push, pop, add, sub, mul, div, mod, cmp, inc, dec, neg, not,
    and, or, xor, shl, shr, jmp, je, jnz, jg, jge, jl, jle, jc, jnc, call, ret, sys,
    nop, hlt]

def mnemonic : Opcode → String
  | mov => "MOV" | load => "LOAD" | store => "STORE" | push => "PUSH" | pop => "POP"
  | add => "ADD" | sub => "SUB" | mul => "MUL" | div => "DIV" | mod => "MOD"
  | cmp => "CMP" | inc => "INC" | dec => "DEC" | neg => "NEG" | not => "NOT"
  | and => "AND" | or => "OR" | xor => "XOR" | shl => "SHL" | shr => "SHR"
  | jmp => "JMP" | je => "JE" | jnz => "JNZ" | jg => "JG" | jge => "JGE"
  | jl => "JL" | jle => "JLE" | jc => "JC" | jnc => "JNC"
  | call => "CALL" | ret => "RET" | sys => "SYS" | nop => "NOP" | hlt => "HLT"

theorem mem_all (opcode : Opcode) : opcode ∈ all := by
  cases opcode <;> decide

/-- Names that stand for an opcode beside its mnemonic. -/
def aliases : List (String × Opcode) :=
  [("HALT", hlt), ("JNE", jnz), ("JEQ", je), ("JZ", je), ("SYSCALL", sys),
    ("LD", load), ("ST", store)]

def ofText? (name : Text) : Option Opcode :=
  match aliases.find? (sameWord ·.1.toList name) with
  | some entry => some entry.2
  | none => all.find? (sameWord ·.mnemonic.toList name)

/-- Every accepted name, mnemonics first. -/
def vocabulary : List Text :=
  all.map (·.mnemonic.toList) ++ aliases.map (·.1.toList)

/-- Whether the operand is an instruction index and not a value. -/
def isBranch : Opcode → Bool
  | jmp | je | jnz | jg | jge | jl | jle | jc | jnc | call => true
  | _ => false

end Opcode
end WordMachine
