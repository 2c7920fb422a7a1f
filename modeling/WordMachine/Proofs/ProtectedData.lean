import WordMachine.Proofs.InstructionFrames

/-!
# Pushes keep clear of the data

A push stores its word two bytes below the stack pointer, which a program may
have set to anything.  The main result says when a push or a call succeeds, for
every stack pointer: where the word would start neither at zero nor at the last
byte of memory, and none of its bytes belongs to the data.  The data is never
written, and a push that is refused leaves the machine as it was.
-/

namespace WordMachine

/-! ## Bytes of the data -/

namespace Program

/-- The address is that of a data byte. -/
def HoldsData (program : Program) (address : Nat) : Prop :=
  program.dataStart.toNat ≤ address ∧ address < program.dataEnd

/-- A word that starts at an address has a byte in common with the data. -/
def MeetsData (program : Program) (start : Nat) : Prop :=
  ∃ address, program.HoldsData address ∧ (address = start ∨ address = start + 1)

end Program

namespace Machine

open Execution

variable {calls : SystemCalls} {program : Program} {instruction : Instruction}
  {machine : Machine} {word : Word} {flow : Flow}

theorem touchesData_iff (program : Program) (start : Nat) :
    touchesData program start = true ↔ program.MeetsData start := by
  have hempty : program.data.isEmpty = true ↔ program.data.size = 0 := by simp
  simp only [touchesData, Bool.and_eq_true, Bool.not_eq_true', decide_eq_true_eq,
    ← Bool.not_eq_true, hempty]
  unfold Program.MeetsData Program.HoldsData Program.dataEnd
  constructor
  · rintro ⟨⟨hdata, hlow⟩, hhigh⟩
    -- the second byte is the one that counts where the word starts just below the data
    by_cases hbelow : start < program.dataStart.toNat
    · exact ⟨start + 1, by omega, .inr rfl⟩
    · exact ⟨start, by omega, .inl rfl⟩
  · rintro ⟨address, hholds, hbyte⟩
    omega

/-! ## Where a pushed word goes -/

/-- The address that a pushed word would start at: two below the stack pointer, which goes around
at zero. -/
def pushStart (machine : Machine) : Nat :=
  (((machine.cpu.stackPointer.toNat : Int) - 2) % 65536).toNat

theorem toNat_stackPointer_sub (machine : Machine) :
    (machine.cpu.stackPointer - 2).toNat = machine.pushStart := by
  have hpointer := machine.cpu.stackPointer.isLt
  have htwo : (2 : Word).toNat = 2 := rfl
  rw [BitVec.toNat_sub, htwo, pushStart]
  omega

theorem stackPointer_sub_eq_zero_iff (machine : Machine) :
    machine.cpu.stackPointer - 2 = 0 ↔ machine.pushStart = 0 := by
  rw [← toNat_stackPointer_sub, ← BitVec.toNat_inj]
  rfl

theorem pushStart_lt (machine : Machine) : machine.pushStart < 65536 := by
  unfold pushStart
  omega

theorem run_push_of_overflow
    (hoverflow : machine.pushStart = 0 ∨ program.MeetsData machine.pushStart) :
    (push program word).run machine =
      .error (.fault (.stackOverflow (machine.cpu.stackPointer - 2))) machine := by
  have hrefused : machine.cpu.stackPointer - 2 = 0 ∨
      touchesData program (machine.cpu.stackPointer - 2).toNat = true := by
    rwa [stackPointer_sub_eq_zero_iff, touchesData_iff, toNat_stackPointer_sub]
  rw [run_push]
  dsimp only
  rw [if_pos hrefused]

theorem run_push_of_clear (hclear : ¬program.MeetsData machine.pushStart)
    (hnonzero : machine.pushStart ≠ 0) :
    (push program word).run machine =
      if machine.pushStart = 65535 then .error (.fault (.addressOutOfBounds 65535)) machine
      else .ok () (machine.pushed word) := by
  have hallowed : ¬(machine.cpu.stackPointer - 2 = 0 ∨
      touchesData program (machine.cpu.stackPointer - 2).toNat = true) := by
    rw [stackPointer_sub_eq_zero_iff, touchesData_iff, toNat_stackPointer_sub]
    exact not_or.mpr ⟨hnonzero, hclear⟩
  have hlt := machine.pushStart_lt
  rw [run_push]
  dsimp only
  rw [if_neg hallowed, toNat_stackPointer_sub, Memory.size]
  by_cases hlast : machine.pushStart = 65535
  · rw [if_pos hlast, if_neg (by omega), hlast]
    rfl
  · rw [if_neg hlast, if_pos (by omega)]

/-- The bytes of a pushed word are none of the data. -/
theorem byte_pushed (hclear : ¬program.MeetsData machine.pushStart)
    (hinside : machine.pushStart + 2 ≤ Memory.size) {address : Nat}
    (hholds : program.HoldsData address) :
    (machine.pushed word).memory.byte address = machine.memory.byte address := by
  have hfirst : address ≠ machine.pushStart := fun heq => hclear ⟨address, hholds, .inl heq⟩
  have hsecond : address ≠ machine.pushStart + 1 := fun heq => hclear ⟨address, hholds, .inr heq⟩
  simp only [pushed, toNat_stackPointer_sub]
  rw [Memory.byte_setWord _ _ hinside, if_neg hsecond, if_neg hfirst]

theorem holdsWord_pushed (hinside : machine.pushStart + 2 ≤ Memory.size) :
    (machine.pushed word).memory.HoldsWord machine.pushStart word := by
  simp only [pushed, toNat_stackPointer_sub]
  exact machine.memory.holdsWord_setWord word hinside

/-! ## Steps that push -/

/-- The instruction pushes this word and goes on there: it pushes the value of its operand, or
calls the instruction number that its operand names. -/
def Pushes (program : Program) (instruction : Instruction) (machine : Machine) (word : Word)
    (flow : Flow) : Prop :=
  (instruction.opcode = .push ∧ value program instruction 0 machine = .ok word ∧ flow = .next) ∨
    instruction.opcode = .call ∧ word = machine.cpu.instructionPointer + 1 ∧
      ∃ number, target program instruction = .ok number ∧ flow = .jump number

variable (calls) in
theorem run_execute_of_pushes (hpushes : Pushes program instruction machine word flow) :
    (execute calls program instruction).run machine =
      match (push program word).run machine with
      | .ok _ after => .ok flow after
      | .error failure after => .error failure after := by
  rcases hpushes with ⟨hopcode, hvalue, rfl⟩ | ⟨hopcode, rfl, number, htarget, rfl⟩
  · have hread : (read (value program instruction 0)).run machine = .ok word machine :=
      run_read_of_ok hvalue
    simp only [execute, hopcode, thenNext, EStateM.run_bind, hread]
    cases (push program word).run machine with
    | ok _ after => rfl
    | error failure after => rfl
  · have hread : (read fun _ => target program instruction).run machine = .ok number machine :=
      run_read_of_ok htarget
    simp only [execute, hopcode, call, EStateM.run_bind, hread, EStateM.run_get]
    cases (push program (machine.cpu.instructionPointer + 1)).run machine with
    | ok _ after => rfl
    | error failure after => rfl

section

variable (hcurrent : machine.current? program = some instruction)
  (hpushes : Pushes program instruction machine word flow)
include hcurrent hpushes

theorem step_of_overflow
    (hoverflow : machine.pushStart = 0 ∨ program.MeetsData machine.pushStart) :
    (step calls program).run machine =
      .error (.fault (.stackOverflow (.ofNat 16 machine.pushStart))) machine := by
  have hpointer : BitVec.ofNat 16 machine.pushStart = machine.cpu.stackPointer - 2 := by
    rw [← machine.toNat_stackPointer_sub, BitVec.ofNat_toNat, BitVec.setWidth_eq]
  rw [step_of_current? hcurrent, run_execute_of_pushes calls hpushes,
    run_push_of_overflow hoverflow, hpointer]

theorem step_of_last (hclear : ¬program.MeetsData machine.pushStart)
    (hlast : machine.pushStart = 65535) :
    (step calls program).run machine =
      .error (.fault (.addressOutOfBounds 65535)) machine := by
  have hnonzero : machine.pushStart ≠ 0 := by omega
  rw [step_of_current? hcurrent, run_execute_of_pushes calls hpushes,
    run_push_of_clear hclear hnonzero, if_pos hlast]

theorem step_of_room (hclear : ¬program.MeetsData machine.pushStart)
    (hnonzero : machine.pushStart ≠ 0) (hroom : machine.pushStart ≠ 65535) :
    (step calls program).run machine =
      .ok ()
        { machine.pushed word with cpu := advance flow (machine.pushed word).cpu } := by
  rw [step_of_current? hcurrent, run_execute_of_pushes calls hpushes,
    run_push_of_clear hclear hnonzero, if_neg hroom]

/-- A step that succeeds met none of the obstacles. -/
theorem clear_of_step {after : Machine} (hok : (step calls program).run machine = .ok () after) :
    machine.pushStart ≠ 0 ∧ machine.pushStart ≠ 65535 ∧
      ¬program.MeetsData machine.pushStart := by
  have hallowed : ¬(machine.pushStart = 0 ∨ program.MeetsData machine.pushStart) := by
    intro hoverflow
    rw [step_of_overflow hcurrent hpushes hoverflow] at hok
    cases hok
  obtain ⟨hnonzero, hclear⟩ := not_or.mp hallowed
  refine ⟨hnonzero, fun hlast => ?_, hclear⟩
  rw [step_of_last hcurrent hpushes hclear hlast] at hok
  cases hok

end

end Machine

/-- Pushes and calls with operands that can be executed, from any stack pointer.  They succeed
where the word would start neither at zero nor at the last byte of memory and meets no data; then
it stands there under the new stack pointer, and every byte of the data is as it was.  They
overflow where the word would start at zero or meet the data, and they are out of bounds where the
last byte of memory is all that is in the way; then the machine is as it was. -/
theorem push_spares_data
    (calls : SystemCalls) (program : Program) (instruction : Instruction) (machine : Machine)
    (word : Word) (flow : Flow) (hcurrent : machine.current? program = some instruction)
    (hpushes : Machine.Pushes program instruction machine word flow) :
    let step := (Machine.step calls program).run machine
    let start := machine.pushStart
    ((∃ after, step = .ok () after) ↔
        start ≠ 0 ∧ start ≠ 65535 ∧ ¬program.MeetsData start) ∧
      (∀ after, step = .ok () after →
        after.cpu.stackPointer.toNat = start ∧ after.memory.HoldsWord start word ∧
          ∀ address, program.HoldsData address →
            after.memory.byte address = machine.memory.byte address) ∧
        (start = 0 ∨ program.MeetsData start →
          step = .error (.fault (.stackOverflow (.ofNat 16 start))) machine) ∧
          (start = 65535 ∧ ¬program.MeetsData start →
            step = .error (.fault (.addressOutOfBounds 65535)) machine) := by
  intro step start
  have hoverflow : start = 0 ∨ program.MeetsData start →
      step = .error (.fault (.stackOverflow (.ofNat 16 start))) machine :=
    Machine.step_of_overflow hcurrent hpushes
  have hlast : start = 65535 ∧ ¬program.MeetsData start →
      step = .error (.fault (.addressOutOfBounds 65535)) machine :=
    fun ⟨hlast, hclear⟩ => Machine.step_of_last hcurrent hpushes hclear hlast
  have hroom : start ≠ 0 ∧ start ≠ 65535 ∧ ¬program.MeetsData start →
      step = .ok () { machine.pushed word with
        cpu := Machine.advance flow (machine.pushed word).cpu } :=
    fun ⟨hnonzero, hinside, hclear⟩ =>
      Machine.step_of_room hcurrent hpushes hclear hnonzero hinside
  refine ⟨⟨fun ⟨after, hok⟩ => Machine.clear_of_step hcurrent hpushes hok,
    fun hfree => ⟨_, hroom hfree⟩⟩, ?_, hoverflow, hlast⟩
  intro after hok
  have hfree := Machine.clear_of_step hcurrent hpushes hok
  rw [hroom hfree] at hok
  cases hok
  have hfits : machine.pushStart + 2 ≤ Memory.size := by
    have hlt := machine.pushStart_lt
    have hinside : machine.pushStart ≠ 65535 := hfree.2.1
    unfold Memory.size
    omega
  refine ⟨?_, Machine.holdsWord_pushed hfits,
    fun address hholds => Machine.byte_pushed hfree.2.2 hfits hholds⟩
  rw [Machine.stackPointer_advance]
  exact machine.toNat_stackPointer_sub

/-- A push beside three bytes of data at the end of memory. -/
def Program.dataAtEnd : Program where
  instructions :=
    #[{ opcode := .push, operands := [.immediate 258],
        line := 4, column := 1, source := "PUSH #258".toList, address := 0 }]
  symbols := {}
  data := #[1, 2, 3]
  textStart := 0
  dataStart := 65533

/-- The word fits just below the data.  One byte higher it overflows, and so it does at the last
byte of memory, which belongs to the data. -/
theorem push_spares_data_atEnd :
    let machine (stackPointer : Word) : Machine :=
      { Machine.ofProgram .dataAtEnd with cpu := { stackPointer } }
    let step (stackPointer : Word) :=
      (Machine.step .standard .dataAtEnd).run (machine stackPointer)
    (∃ after,
      step 65533 = .ok () after ∧ after.cpu.stackPointer.toNat = 65531 ∧
        after.memory.byte 65533 = (Memory.ofProgram .dataAtEnd).byte 65533) ∧
      step 65534 = .error (.fault (.stackOverflow 65532)) (machine 65534) ∧
        step 1 = .error (.fault (.stackOverflow 65535)) (machine 1) := by
  intro machine step
  let push := Program.dataAtEnd.instructions[0]
  have hpush : ∀ stackPointer,
      (machine stackPointer).current? .dataAtEnd = some push ∧
        Machine.Pushes .dataAtEnd push (machine stackPointer) 258 .next :=
    fun _ => ⟨rfl, .inl ⟨rfl, rfl, rfl⟩⟩
  have hspares := fun stackPointer =>
    push_spares_data .standard .dataAtEnd push (machine stackPointer) 258 .next
      (hpush stackPointer).1 (hpush stackPointer).2
  have hclear : ¬Program.dataAtEnd.MeetsData 65531 := by
    rintro ⟨address, ⟨hlow, -⟩, hbyte⟩
    have hstart : Program.dataAtEnd.dataStart.toNat = 65533 := rfl
    omega
  obtain ⟨after, hok⟩ := (hspares 65533).1.mpr ⟨by decide, by decide, hclear⟩
  obtain ⟨hpointer, -, hbytes⟩ := (hspares 65533).2.1 after hok
  refine ⟨⟨after, hok, hpointer, hbytes 65533 ⟨by decide, by decide⟩⟩, ?_, ?_⟩
  · exact (hspares 65534).2.2.1 (.inr ⟨65533, ⟨by decide, by decide⟩, .inr rfl⟩)
  · exact (hspares 1).2.2.1 (.inr ⟨65535, ⟨by decide, by decide⟩, .inl rfl⟩)

end WordMachine
