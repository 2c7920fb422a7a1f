import WordMachine.Machine.Arithmetic
import WordMachine.Machine.SystemCall

/-!
# Execution

`Machine.step` executes the instruction at the instruction pointer.  A machine
that has halted, or whose pointer has left the program, does nothing but stay
halted.  An instruction reads its operands, checks what it is about to do and
changes the machine, in an order of its own; where it fails, the machine is left
as it is at that point.
-/

namespace WordMachine

structure Machine where
  cpu : Cpu := {}
  memory : Memory := Memory.zero
  console : Console := {}

/-- A computation on a machine, which may fail and leaves a machine either way. -/
abbrev Execution (α : Type) := EStateM Failure Machine α

namespace Execution

variable {α : Type}

/-- Look something up that the machine may not have. -/
def read (look : Machine → Except Failure α) : Execution α := do
  liftExcept (look (← get))

/-- Work on the memory of the machine. -/
def onMemory (work : EStateM Failure Memory α) : Execution α := fun machine =>
  match work.run machine.memory with
  | .ok value memory => .ok value { machine with memory }
  | .error failure memory => .error failure { machine with memory }

/-- Work on the processor and the console. -/
def onHostView (work : Memory → EStateM Failure HostView α) : Execution α := fun machine =>
  match (work machine.memory).run { cpu := machine.cpu, console := machine.console } with
  | .ok value view => .ok value { machine with cpu := view.cpu, console := view.console }
  | .error failure view =>
      .error failure { machine with cpu := view.cpu, console := view.console }

def modifyCpu (change : Cpu → Cpu) : Execution Unit :=
  modify fun machine => { machine with cpu := change machine.cpu }

end Execution

/-- Where execution goes on. -/
inductive Flow
  | next
  | jump (target : Word)
  | stay
  deriving DecidableEq

namespace Instruction

def invalid {α : Type} (instruction : Instruction) (position : Nat) : Except Failure α :=
  .error (.fault (.invalidOperand instruction.opcode (position + 1)))

def operandAt (instruction : Instruction) (position : Nat) : Except Failure Operand :=
  match instruction.operands[position]? with
  | some operand => .ok operand
  | none => instruction.invalid position

def registerAt (instruction : Instruction) (position : Nat) : Except Failure Register := do
  match ← instruction.operandAt position with
  | .register register => .ok register
  | _ => instruction.invalid position

end Instruction

namespace Program

def valueOf (program : Program) (name : Text) : Except Failure Int :=
  match program.symbols.value? name with
  | some value => .ok value
  | none => .error (.fault (.undefinedSymbol name))

end Program

namespace Machine

open Execution

/-- A machine with a program loaded and nothing executed. -/
def ofProgram (program : Program) : Machine :=
  { cpu := Cpu.ofProgram program, memory := Memory.ofProgram program }

/-! ## What an instruction looks up -/

/-- The low 16 bits of a register, immediate or label operand. -/
def value (program : Program) (instruction : Instruction) (position : Nat)
    (machine : Machine) : Except Failure Word := do
  match ← instruction.operandAt position with
  | .register register => .ok (machine.cpu.get register)
  | .immediate value => .ok (BitVec.ofInt 16 value)
  | .label name => BitVec.ofInt 16 <$> program.valueOf name
  | .memory _ => instruction.invalid position

/-- The byte address that a memory operand names. -/
def address (program : Program) (instruction : Instruction) (position : Nat)
    (machine : Machine) : Except Failure Int := do
  match ← instruction.operandAt position with
  | .memory (.absolute address) => .ok address.toNat
  | .memory (.label name) => program.valueOf name
  | .memory (.indirect base offset) => .ok ((machine.cpu.get base).toNat + offset)
  | _ => instruction.invalid position

/-- The value of a register operand. -/
def registerValue (instruction : Instruction) (position : Nat) (machine : Machine) :
    Except Failure Word :=
  machine.cpu.get <$> instruction.registerAt position

/-- The instruction number that a branch operand names. -/
def target (program : Program) (instruction : Instruction) : Except Failure Word := do
  let target ← match ← instruction.operandAt 0 with
    | .immediate value => .ok value
    | .label name => program.valueOf name
    | _ => instruction.invalid 0
  if 0 ≤ target ∧ target ≤ 65535 then .ok (BitVec.ofInt 16 target) else instruction.invalid 0

/-- Whether a word at an address would touch the program's data. -/
def touchesData (program : Program) (address : Nat) : Bool :=
  !program.data.isEmpty && address < program.dataEnd &&
    program.dataStart.toNat < address + 2

/-- The word on top of the stack. -/
def peek (machine : Machine) : Except Failure Word :=
  if machine.cpu.stackPointer = 0 then .error (.fault .stackUnderflow)
  else machine.memory.readWord machine.cpu.stackPointer.toNat

/-- Whether a return may go to an instruction number: in the program or just past it. -/
def isReturnTarget (program : Program) (target : Word) : Bool :=
  (program.instructionAt? target).isSome || target.toNat == program.instructions.size

/-! ## What an instruction does -/

/-- Store a result in the destination register and set the flags by it. -/
def write (instruction : Instruction) (outcome : Outcome) : Execution Unit := do
  let destination ← read fun _ => instruction.registerAt 0
  modifyCpu fun cpu =>
    { cpu.set destination outcome.value with
      flags := Flags.ofResult outcome.value outcome.carry outcome.overflow }

/-- Push a word below the stack pointer.  The word at address zero is never used. -/
def push (program : Program) (value : Word) : Execution Unit := do
  let stackPointer := (← get).cpu.stackPointer - 2
  if stackPointer = 0 ∨ touchesData program stackPointer.toNat then
    throw (.fault (.stackOverflow stackPointer))
  else
    onMemory (Memory.writeWord stackPointer.toNat value)
    modifyCpu ({ · with stackPointer })

/-- Take the word on top of the stack. -/
def pop : Execution Word := do
  let value ← read peek
  modifyCpu fun cpu => { cpu with stackPointer := cpu.stackPointer + 2 }
  return value

def popInto (instruction : Instruction) : Execution Unit := do
  let destination ← read fun _ => instruction.registerAt 0
  let value ← pop
  modifyCpu fun cpu =>
    { cpu.set destination value with flags := Flags.ofResult value false false }

def call (program : Program) (instruction : Instruction) : Execution Flow := do
  let target ← read fun _ => target program instruction
  push program ((← get).cpu.instructionPointer + 1)
  return .jump target

def ret (program : Program) : Execution Flow := do
  let target ← read peek
  if isReturnTarget program target then
    let _ ← pop
    return .jump target
  else throw (.fault (.corruptReturn target))

def systemCall (calls : SystemCalls) (number : Word) : Execution Flow := do
  onHostView (calls number)
  return if (← get).cpu.halted then .stay else .next

/-- Jump if the flags say so. -/
def branch (program : Program) (instruction : Instruction) : Execution Flow := do
  if (← get).cpu.flags.jumps instruction.opcode then
    return .jump (← read fun _ => target program instruction)
  else return .next

/-- Compute from the destination register and the second operand. -/
def compute (program : Program) (instruction : Instruction)
    (operation : Word → Word → Except Fault Outcome) : Execution Outcome := do
  let a ← read (registerValue instruction 0)
  let b ← read (value program instruction 1)
  liftExcept ((operation a b).mapError Failure.fault)

def binary (program : Program) (instruction : Instruction)
    (operation : Word → Word → Except Fault Outcome) : Execution Unit := do
  write instruction (← compute program instruction operation)

def unary (instruction : Instruction) (operation : Word → Outcome) : Execution Unit := do
  let a ← read (registerValue instruction 0)
  write instruction (operation a)

/-- Set the flags by a difference that is not kept. -/
def compare (program : Program) (instruction : Instruction) : Execution Unit := do
  let outcome ← compute program instruction fun a b => .ok (Arithmetic.sub a b)
  modifyCpu ({ · with flags := Flags.ofResult outcome.value outcome.carry outcome.overflow })

def move (program : Program) (instruction : Instruction) : Execution Unit := do
  let value ← read (value program instruction 1)
  write instruction { value }

def load (program : Program) (instruction : Instruction) : Execution Unit := do
  let address ← read (address program instruction 1)
  let value ← read (·.memory.readWord address)
  write instruction { value }

def store (program : Program) (instruction : Instruction) : Execution Unit := do
  let address ← read (address program instruction 0)
  let value ← read (value program instruction 1)
  onMemory (Memory.writeWord address value)

def halt (machine : Machine) : Machine :=
  { machine with cpu := { machine.cpu with halted := true } }

/-- Go on with the next instruction. -/
def thenNext (work : Execution Unit) : Execution Flow := do
  work
  return .next

/-- Execute one instruction, short of moving the instruction pointer. -/
def execute (calls : SystemCalls) (program : Program) (instruction : Instruction) :
    Execution Flow :=
  match instruction.opcode with
  | .mov => thenNext (move program instruction)
  | .load => thenNext (load program instruction)
  | .store => thenNext (store program instruction)
  | .push => thenNext do push program (← read (value program instruction 0))
  | .pop => thenNext (popInto instruction)
  | .add => thenNext (binary program instruction fun a b => .ok (Arithmetic.add a b))
  | .sub => thenNext (binary program instruction fun a b => .ok (Arithmetic.sub a b))
  | .cmp => thenNext (compare program instruction)
  | .mul => thenNext (binary program instruction fun a b => .ok (Arithmetic.mul a b))
  | .div => thenNext (binary program instruction Arithmetic.div)
  | .mod => thenNext (binary program instruction Arithmetic.mod)
  | .and => thenNext (binary program instruction fun a b => .ok { value := a &&& b })
  | .or => thenNext (binary program instruction fun a b => .ok { value := a ||| b })
  | .xor => thenNext (binary program instruction fun a b => .ok { value := a ^^^ b })
  | .shl => thenNext (binary program instruction fun a b => .ok (Arithmetic.shl a b))
  | .shr => thenNext (binary program instruction fun a b => .ok (Arithmetic.shr a b))
  | .inc => thenNext (unary instruction (Arithmetic.add · 1))
  | .dec => thenNext (unary instruction (Arithmetic.sub · 1))
  | .neg => thenNext (unary instruction (Arithmetic.sub 0))
  | .not => thenNext (unary instruction fun a => { value := ~~~a })
  | .jmp | .je | .jnz | .jg | .jge | .jl | .jle | .jc | .jnc => branch program instruction
  | .call => call program instruction
  | .ret => ret program
  | .sys => do systemCall calls (← read (value program instruction 0))
  | .nop => thenNext (pure ())
  | .hlt => do
      modify halt
      return .stay

/-- Move the instruction pointer; past the last number there is nothing to execute. -/
def advance (flow : Flow) (cpu : Cpu) : Cpu :=
  match flow with
  | .next =>
      if cpu.instructionPointer = 65535 then { cpu with halted := true }
      else { cpu with instructionPointer := cpu.instructionPointer + 1 }
  | .jump target => { cpu with instructionPointer := target }
  | .stay => cpu

/-- Execute the instruction at the instruction pointer, if there is anything to execute. -/
def step (calls : SystemCalls) (program : Program) : Execution Unit := do
  let machine ← get
  if machine.cpu.halted then return
  else
    match program.instructionAt? machine.cpu.instructionPointer with
    | none => modify halt
    | some instruction =>
        let flow ← execute calls program instruction
        modifyCpu (advance flow)

/-! ## What a step comes to -/

section Steps

variable {calls : SystemCalls} {program : Program} {machine : Machine}

theorem step_of_halted (hhalted : machine.cpu.halted = true) :
    (step calls program).run machine = .ok () machine := by
  simp only [step, EStateM.run_bind, EStateM.run_get, hhalted, if_true]
  rfl

theorem step_of_no_instruction (hrunning : machine.cpu.halted = false)
    (hnone : program.instructionAt? machine.cpu.instructionPointer = none) :
    (step calls program).run machine = .ok () machine.halt := by
  simp only [step, EStateM.run_bind, EStateM.run_get, hrunning, Bool.false_eq_true, if_false,
    hnone]
  rfl

/-- A step at an instruction fails as its execution does, and moves the pointer otherwise. -/
theorem step_of_instruction {instruction : Instruction}
    (hrunning : machine.cpu.halted = false)
    (hinstruction :
      program.instructionAt? machine.cpu.instructionPointer = some instruction) :
    (step calls program).run machine =
      match (execute calls program instruction).run machine with
      | .ok flow machine => .ok () { machine with cpu := advance flow machine.cpu }
      | .error failure machine => .error failure machine := by
  simp only [step, EStateM.run_bind, EStateM.run_get, hrunning, Bool.false_eq_true, if_false,
    hinstruction]
  cases (execute calls program instruction).run machine with
  | ok flow after => rfl
  | error failure after => rfl

theorem step_eq_error_iff {instruction : Instruction} {failure : Failure} {machine' : Machine}
    (hrunning : machine.cpu.halted = false)
    (hinstruction :
      program.instructionAt? machine.cpu.instructionPointer = some instruction) :
    (step calls program).run machine = .error failure machine' ↔
      (execute calls program instruction).run machine = .error failure machine' := by
  rw [step_of_instruction hrunning hinstruction]
  cases (execute calls program instruction).run machine with
  | ok flow after => exact ⟨nofun, nofun⟩
  | error refusal after => simp only [EStateM.Result.error.injEq]

end Steps

/-- Execute a number of instructions. -/
def steps (calls : Handler) (program : Program) : (count : Nat) → Execution Unit
  | 0 => return
  | count + 1 => do
      steps calls program count
      step (calls count) program

end Machine
end WordMachine
