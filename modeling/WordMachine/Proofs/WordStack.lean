import WordMachine.Proofs.StackSteps

/-!
# The stack as a list of words

The words from the stack pointer to the end of memory are a list, with the word
on top at its head.  A push puts a word in front of it, and a pop takes one
away.  The stack pointer is zero just where the list is empty, because the word
at address zero is never used.
-/

namespace WordMachine

/-! ## Words up to the end of memory -/

namespace Memory

variable {memory other : Memory} {start : Nat}

/-- The words from an address to the end of memory. -/
def wordsFrom (memory : Memory) (start : Nat) : List Word :=
  (List.range' start ((size - start) / 2) 2).map memory.wordAt

theorem wordsFrom_size (memory : Memory) : memory.wordsFrom size = [] := rfl

theorem wordsFrom_eq_cons (memory : Memory) (hroom : start + 2 ≤ size) :
    memory.wordsFrom start = memory.wordAt start :: memory.wordsFrom (start + 2) := by
  have hcount : (size - start) / 2 = (size - (start + 2)) / 2 + 1 := by omega
  rw [wordsFrom, hcount, List.range'_succ, List.map_cons]
  rfl

theorem wordsFrom_congr
    (hbytes : ∀ address, start ≤ address → memory.byte address = other.byte address) :
    memory.wordsFrom start = other.wordsFrom start := by
  apply List.map_congr_left
  intro address hmem
  obtain ⟨index, -, rfl⟩ := List.mem_range'.mp hmem
  rw [wordAt, wordAt, hbytes _ (by omega), hbytes _ (by omega)]

theorem wordsFrom_setWord {address : Nat} (value : Word) (hbelow : address + 2 ≤ start)
    (hstart : start ≤ size) : (memory.setWord address value).wordsFrom start =
      memory.wordsFrom start := by
  apply wordsFrom_congr
  intro other hother
  rw [byte_setWord memory value (by omega), if_neg (by omega), if_neg (by omega)]

end Memory

namespace Machine

open Execution

variable {calls : SystemCalls} {program : Program} {instruction : Instruction}
  {machine after : Machine} {stack : List Word} {word : Word}

/-! ## The words on the stack -/

/-- Where the words of the stack begin.  A stack pointer of zero stands for the end of memory. -/
def stackStart (machine : Machine) : Nat :=
  if machine.cpu.stackPointer = 0 then Memory.size else machine.cpu.stackPointer.toNat

theorem stackStart_eq {count : Nat}
    (hpointer : machine.cpu.stackPointer.toNat = (65536 - 2 * count) % 65536)
    (hcount : count ≤ 32767) : machine.stackStart = 65536 - 2 * count := by
  unfold stackStart
  by_cases hempty : machine.cpu.stackPointer = 0
  · have hzero : machine.cpu.stackPointer.toNat = 0 := by rw [hempty]; rfl
    rw [if_pos hempty, Memory.size]
    omega
  · have hnonzero : machine.cpu.stackPointer.toNat ≠ 0 :=
      fun hzero => hempty (BitVec.eq_of_toNat_eq hzero)
    rw [if_neg hempty]
    omega

/-- The words of memory from the stack pointer up. -/
def stackWords (machine : Machine) : List Word := machine.memory.wordsFrom machine.stackStart

/-- The stack of a machine holds these words, and no more than there is room for. -/
structure HasStack (machine : Machine) (stack : List Word) : Prop where
  length_le : stack.length ≤ 32767
  start : machine.stackStart = 65536 - 2 * stack.length
  words : machine.stackWords = stack

theorem hasStack_nil (hempty : machine.cpu.stackPointer = 0) : machine.HasStack [] where
  length_le := Nat.zero_le _
  start := if_pos hempty
  words := by
    rw [stackWords, stackStart, if_pos hempty]
    exact Memory.wordsFrom_size _

namespace HasStack

theorem stackPointer_eq_zero_iff (hstack : machine.HasStack stack) :
    machine.cpu.stackPointer = 0 ↔ stack = [] := by
  have hstart := hstack.start
  have hlength := hstack.length_le
  unfold stackStart at hstart
  constructor
  · intro hempty
    rw [if_pos hempty] at hstart
    apply List.eq_nil_of_length_eq_zero
    unfold Memory.size at hstart
    omega
  · rintro rfl
    by_cases hempty : machine.cpu.stackPointer = 0
    · exact hempty
    · rw [if_neg hempty] at hstart
      have hlt := machine.cpu.stackPointer.isLt
      simp only [List.length_nil] at hstart
      omega

theorem toNat_stackPointer (hstack : machine.HasStack stack) :
    machine.cpu.stackPointer.toNat = (65536 - 2 * stack.length) % 65536 := by
  have hstart := hstack.start
  have hlength := hstack.length_le
  unfold stackStart at hstart
  by_cases hempty : machine.cpu.stackPointer = 0
  · rw [hstack.stackPointer_eq_zero_iff.mp hempty, hempty]
    rfl
  · rw [if_neg hempty] at hstart
    have hlt := machine.cpu.stackPointer.isLt
    omega

/-- The same stack pointer and the same bytes above it are the same stack. -/
theorem of_eq (hstack : machine.HasStack stack)
    (hpointer : after.cpu.stackPointer = machine.cpu.stackPointer)
    (hmemory : ∀ address, machine.stackStart ≤ address →
      after.memory.byte address = machine.memory.byte address) :
    after.HasStack stack := by
  have hstart : after.stackStart = machine.stackStart := by
    rw [stackStart, stackStart, hpointer]
  refine ⟨hstack.length_le, hstart.trans hstack.start, ?_⟩
  rw [stackWords, hstart, Memory.wordsFrom_congr hmemory]
  exact hstack.words

theorem pushed (hstack : machine.HasStack stack) (htop : (machine.pushed word).HasTop) :
    (machine.pushed word).HasStack (word :: stack) := by
  have hpointer := hstack.toNat_stackPointer
  have hlength := hstack.length_le
  have hnonzero : (machine.pushed word).cpu.stackPointer.toNat ≠ 0 :=
    fun hzero => htop.1 (BitVec.eq_of_toNat_eq hzero)
  have hmoved : (machine.pushed word).cpu.stackPointer.toNat =
      (machine.cpu.stackPointer.toNat + 65534) % 65536 := by
    have htwo : (2 : Word).toNat = 2 := rfl
    simp only [Machine.pushed, BitVec.toNat_sub, htwo]
    omega
  -- with one word more the stack pointer would be zero again, and the push is refused
  have hroom : stack.length + 1 ≤ 32767 := by omega
  have hbelow : (machine.pushed word).cpu.stackPointer.toNat =
      65536 - 2 * (stack.length + 1) := by
    omega
  have hstart : (machine.pushed word).stackStart = 65536 - 2 * (stack.length + 1) :=
    stackStart_eq (by omega) hroom
  refine ⟨hroom, hstart, ?_⟩
  have hnext : 65536 - 2 * (stack.length + 1) + 2 = machine.stackStart := by
    rw [hstack.start]
    omega
  have hword : (machine.pushed word).memory.wordAt (65536 - 2 * (stack.length + 1)) = word := by
    rw [← hbelow]
    exact top_pushed htop
  have hrest : (machine.pushed word).memory.wordsFrom machine.stackStart = stack := by
    have hsame : (machine.pushed word).memory.wordsFrom machine.stackStart =
        machine.memory.wordsFrom machine.stackStart := by
      apply Memory.wordsFrom_setWord
      · change (machine.pushed word).cpu.stackPointer.toNat + 2 ≤ machine.stackStart
        omega
      · rw [hstack.start, Memory.size]
        omega
    rw [hsame]
    exact hstack.words
  rw [stackWords, hstart, Memory.wordsFrom_eq_cons _ (by unfold Memory.size; omega), hword, hnext,
    hrest]

theorem hasTop (hstack : machine.HasStack (word :: stack)) :
    machine.HasTop ∧ machine.top = word := by
  have hpointer := hstack.toNat_stackPointer
  have hlength := hstack.length_le
  have hwords := hstack.words
  simp only [List.length_cons] at hpointer hlength
  have hnonzero : machine.cpu.stackPointer ≠ 0 := fun hempty =>
    List.cons_ne_nil word stack (hstack.stackPointer_eq_zero_iff.mp hempty)
  have hroom : machine.cpu.stackPointer.toNat + 2 ≤ Memory.size := by
    unfold Memory.size
    omega
  refine ⟨⟨hnonzero, hroom⟩, ?_⟩
  rw [stackWords, stackStart, if_neg hnonzero, Memory.wordsFrom_eq_cons _ hroom] at hwords
  exact (List.cons.inj hwords).1

theorem popped (hstack : machine.HasStack (word :: stack)) : machine.popped.HasStack stack := by
  have hpointer := hstack.toNat_stackPointer
  have hlength := hstack.length_le
  have hwords := hstack.words
  have hstart := hstack.start
  simp only [List.length_cons] at hpointer hlength hstart
  have hmoved : machine.popped.cpu.stackPointer.toNat = (65536 - 2 * stack.length) % 65536 := by
    have htwo : (2 : Word).toNat = 2 := rfl
    simp only [Machine.popped, BitVec.toNat_add, hpointer, htwo]
    omega
  have hstart' : machine.popped.stackStart = machine.stackStart + 2 := by
    rw [stackStart_eq hmoved (by omega), hstart]
    omega
  refine ⟨by omega, by omega, ?_⟩
  have hroom : machine.stackStart + 2 ≤ Memory.size := by
    unfold Memory.size
    omega
  rw [stackWords, Memory.wordsFrom_eq_cons _ hroom] at hwords
  rw [stackWords, hstart']
  exact (List.cons.inj hwords).2

end HasStack

/-! ## Pushing and popping -/

theorem run_pop_nil (hstack : machine.HasStack []) :
    pop.run machine = .error (.fault .stackUnderflow) machine := by
  have hpeek : machine.peek = .error (.fault .stackUnderflow) :=
    if_pos (hstack.stackPointer_eq_zero_iff.mpr rfl)
  rw [pop, EStateM.run_bind, run_read_of_error hpeek]

theorem run_pop_cons (hstack : machine.HasStack (word :: stack)) :
    pop.run machine = .ok word machine.popped := by
  obtain ⟨htop, hword⟩ := hstack.hasTop
  rw [run_pop_of_hasTop htop, hword]

theorem run_ret_nil (program : Program) (hstack : machine.HasStack []) :
    (ret program).run machine = .error (.fault .stackUnderflow) machine := by
  have hpeek : machine.peek = .error (.fault .stackUnderflow) :=
    if_pos (hstack.stackPointer_eq_zero_iff.mpr rfl)
  rw [ret, EStateM.run_bind, run_read_of_error hpeek]

theorem run_ret_cons (program : Program) (hstack : machine.HasStack (word :: stack)) :
    (ret program).run machine =
      if isReturnTarget program word then .ok (.jump word) machine.popped
      else .error (.fault (.corruptReturn word)) machine := by
  obtain ⟨htop, hword⟩ := hstack.hasTop
  rw [run_ret_of_hasTop program htop, hword]

/-- A push finds no room for its word only below the data or the last word of memory. -/
theorem overflow_of_run_push {failure : Failure} (hstack : machine.HasStack stack)
    (hpush : (push program word).run machine = .error failure after) :
    ∃ pointer, failure = .fault (.stackOverflow pointer) := by
  rw [run_push] at hpush
  dsimp only at hpush
  split at hpush
  · cases hpush
    exact ⟨_, rfl⟩
  next hallowed =>
    have hroom : (machine.cpu.stackPointer - 2).toNat + 2 ≤ Memory.size := by
      have hpointer := hstack.toNat_stackPointer
      have hlength := hstack.length_le
      have htwo : (2 : Word).toNat = 2 := rfl
      have hnonzero : (machine.cpu.stackPointer - 2).toNat ≠ 0 :=
        fun hzero => hallowed (.inl (BitVec.eq_of_toNat_eq hzero))
      simp only [BitVec.toNat_sub, htwo, Memory.size] at hnonzero ⊢
      omega
    rw [if_pos hroom] at hpush
    cases hpush

end Machine
end WordMachine
