import WordMachine.Proofs.InstructionFrames

/-!
# What calculations come to

An instruction that calculates works on the word in its first operand and, where
its opcode takes two operands, on the value of the second.  Behind each such
opcode there is one operation on words.  It succeeds where the operation does: the
outcome goes to the first operand, unless the words are only compared, and the
flags are set by it.
-/

namespace WordMachine

/-- The operation behind an opcode that calculates.  With one operand there is no second word. -/
def Opcode.operation? : Opcode → Option (Word → Word → Except Fault Outcome)
  | .add => some fun a b => .ok (Arithmetic.add a b)
  | .sub | .cmp => some fun a b => .ok (Arithmetic.sub a b)
  | .mul => some fun a b => .ok (Arithmetic.mul a b)
  | .div => some Arithmetic.div
  | .mod => some Arithmetic.mod
  | .and => some fun a b => .ok { value := a &&& b }
  | .or => some fun a b => .ok { value := a ||| b }
  | .xor => some fun a b => .ok { value := a ^^^ b }
  | .shl => some fun a b => .ok (Arithmetic.shl a b)
  | .shr => some fun a b => .ok (Arithmetic.shr a b)
  | .inc => some fun a _ => .ok (Arithmetic.add a 1)
  | .dec => some fun a _ => .ok (Arithmetic.sub a 1)
  | .neg => some fun a _ => .ok (Arithmetic.sub 0 a)
  | .not => some fun a _ => .ok { value := ~~~a }
  | _ => none

theorem Flags.ofResult_eq (result : Word) (carry overflow : Bool) :
    ofResult result carry overflow =
      { zero := result = 0, negative := result.toInt < 0, carry, overflow } := by
  simp [ofResult, BitVec.msb_eq_toInt, ← Bool.beq_eq_decide_eq]

namespace Machine

open Execution

/-- The next instruction works on the word in a register and, where its opcode takes two operands,
on a second word. -/
structure Calculates (program : Program) (instruction : Instruction) (machine : Machine)
    (destination : Register) (a b : Word) : Prop where
  current : machine.current? program = some instruction
  operand : instruction.operands[0]? = some (.register destination)
  first : machine.cpu.get destination = a
  second : instruction.opcode.signature.length = 2 →
    value program instruction 1 machine = .ok b

variable {calls : SystemCalls} {program : Program} {instruction : Instruction}
  {machine : Machine} {destination : Register} {a b : Word} {outcome : Outcome}
  {operation : Word → Word → Except Fault Outcome}

/-- The machine with an outcome kept in a register, or only shown by the flags. -/
def settled (machine : Machine) (opcode : Opcode) (destination : Register) (outcome : Outcome) :
    Machine :=
  if opcode = .cmp then machine.compared outcome else machine.written destination outcome

theorem get_settled (opcode : Opcode) :
    (machine.settled opcode destination outcome).cpu.get destination =
      if opcode = .cmp then machine.cpu.get destination else outcome.value := by
  unfold settled
  split
  · cases destination with
    | general | stackPointer | basePointer => rfl
  · rw [get_written, if_pos rfl]

theorem flags_settled (opcode : Opcode) :
    (machine.settled opcode destination outcome).cpu.flags =
      Flags.ofResult outcome.value outcome.carry outcome.overflow := by
  unfold settled
  split
  · rfl
  · rfl

namespace Calculates

variable (hcalculates : machine.Calculates program instruction destination a b)
include hcalculates

theorem registerAt : instruction.registerAt 0 = .ok destination :=
  Instruction.registerAt_eq_ok_iff.mpr hcalculates.operand

theorem run_write (outcome : Outcome) (machine : Machine) :
    (write instruction outcome).run machine = .ok () (machine.written destination outcome) := by
  have hread : (read fun _ => instruction.registerAt 0).run machine = .ok destination machine :=
    run_read_of_ok hcalculates.registerAt
  rw [write, EStateM.run_bind, hread]
  rfl

theorem run_registerValue :
    (read (registerValue instruction 0)).run machine = .ok a machine := by
  apply run_read_of_ok
  rw [registerValue, hcalculates.registerAt, ← hcalculates.first]
  rfl

theorem run_compute (htwo : instruction.opcode.signature.length = 2)
    (operation : Word → Word → Except Fault Outcome) :
    (compute program instruction operation).run machine =
      match operation a b with
      | .ok outcome => .ok outcome machine
      | .error fault => .error (.fault fault) machine := by
  have hsecond : (read (value program instruction 1)).run machine = .ok b machine :=
    run_read_of_ok (hcalculates.second htwo)
  rw [compute, EStateM.run_bind, hcalculates.run_registerValue]
  dsimp only
  rw [EStateM.run_bind, hsecond]
  dsimp only
  cases operation a b with
  | ok outcome => rfl
  | error fault => rfl

theorem run_binary (htwo : instruction.opcode.signature.length = 2)
    (operation : Word → Word → Except Fault Outcome) :
    (thenNext (binary program instruction operation)).run machine =
      match operation a b with
      | .ok outcome => .ok .next (machine.written destination outcome)
      | .error fault => .error (.fault fault) machine := by
  simp only [thenNext, binary, EStateM.run_bind, hcalculates.run_compute htwo operation]
  cases operation a b with
  | ok outcome =>
      simp only [hcalculates.run_write]
      rfl
  | error fault => rfl

theorem run_unary (operation : Word → Outcome) :
    (thenNext (unary instruction operation)).run machine =
      .ok .next (machine.written destination (operation a)) := by
  simp only [thenNext, unary, EStateM.run_bind, hcalculates.run_registerValue,
    hcalculates.run_write]
  rfl

theorem run_compare (htwo : instruction.opcode.signature.length = 2) :
    (thenNext (compare program instruction)).run machine =
      .ok .next (machine.compared (Arithmetic.sub a b)) := by
  simp only [thenNext, compare, EStateM.run_bind, hcalculates.run_compute htwo]
  rfl

theorem run_execute (hoperation : instruction.opcode.operation? = some operation) :
    (execute calls program instruction).run machine =
      match operation a b with
      | .ok outcome => .ok .next (machine.settled instruction.opcode destination outcome)
      | .error fault => .error (.fault fault) machine := by
  unfold execute
  cases hopcode : instruction.opcode with
  | add | sub | mul | div | mod | and | or | xor | shl | shr =>
      rw [hopcode] at hoperation
      cases hoperation
      exact hcalculates.run_binary (by rw [hopcode]; rfl) _
  | inc | dec | neg | not =>
      rw [hopcode] at hoperation
      cases hoperation
      exact hcalculates.run_unary _
  | cmp =>
      rw [hopcode] at hoperation
      cases hoperation
      exact hcalculates.run_compare (by rw [hopcode]; rfl)
  | _ =>
      rw [hopcode] at hoperation
      cases hoperation

theorem run_step (hoperation : instruction.opcode.operation? = some operation) :
    (step calls program).run machine =
      match operation a b with
      | .ok outcome =>
          let settled := machine.settled instruction.opcode destination outcome
          .ok () { settled with cpu := advance .next settled.cpu }
      | .error fault => .error (.fault fault) machine := by
  rw [step_of_current? hcalculates.current, hcalculates.run_execute hoperation]
  cases operation a b with
  | ok outcome => rfl
  | error fault => rfl

end Calculates

end Machine

/-! ## What an opcode gives -/

namespace Opcode

variable {opcode : Opcode} {a b : Word} {operation : Word → Word → Except Fault Outcome}
  {outcome : Outcome} {fault : Fault}

/-- Wherever the opcode works on these words, the step succeeds.  Then the first operand holds the
value of the outcome, unless the words are only compared, and the flags tell whether the value is
zero or negative and of the carry and the overflow. -/
def Gives (opcode : Opcode) (a b : Word) (outcome : Outcome) : Prop :=
  ∀ (calls : SystemCalls) (program : Program) (instruction : Instruction) (machine : Machine)
    (destination : Register), instruction.opcode = opcode →
      machine.Calculates program instruction destination a b →
        ∃ after,
          (Machine.step calls program).run machine = .ok () after ∧
            after.cpu.get destination = (if opcode = .cmp then a else outcome.value) ∧
              after.cpu.flags =
                { zero := outcome.value = 0
                  negative := outcome.value.toInt < 0
                  carry := outcome.carry
                  overflow := outcome.overflow }

/-- Wherever the opcode works on these words, the step fails and leaves the machine alone. -/
def Refuses (opcode : Opcode) (a b : Word) (fault : Fault) : Prop :=
  ∀ (calls : SystemCalls) (program : Program) (instruction : Instruction) (machine : Machine)
    (destination : Register), instruction.opcode = opcode →
      machine.Calculates program instruction destination a b →
        (Machine.step calls program).run machine = .error (.fault fault) machine

theorem gives_of_operation (hoperation : opcode.operation? = some operation)
    (hok : operation a b = .ok outcome) : opcode.Gives a b outcome := by
  rintro calls program instruction machine destination rfl hcalculates
  rw [hcalculates.run_step hoperation, hok]
  refine ⟨_, rfl, ?_, ?_⟩
  · rw [Machine.get_advance, Machine.get_settled, hcalculates.first]
  · rw [Machine.flags_advance, Machine.flags_settled, Flags.ofResult_eq]

theorem refuses_of_operation (hoperation : opcode.operation? = some operation)
    (herror : operation a b = .error fault) : opcode.Refuses a b fault := by
  rintro calls program instruction machine destination rfl hcalculates
  rw [hcalculates.run_step hoperation, herror]

end Opcode
end WordMachine
