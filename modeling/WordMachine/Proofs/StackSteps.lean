import WordMachine.Machine.Execution

/-!
# What calling and returning come to

The stack grows down from the end of memory, two bytes a word.  A push checks
where the word would go, stores it and moves the stack pointer to it; a call
pushes the number of the next instruction; a return checks the word on top as a
number of an instruction before it takes it.
-/

namespace WordMachine

namespace Execution

variable {α β : Type}

/-- Work that succeeds has succeeded in each of its parts. -/
theorem exists_of_run_bind_ok
    {work : Execution α} {rest : α → Execution β} {machine after : Machine} {result : β}
    (hrun : (work >>= rest).run machine = .ok result after) :
    ∃ value between,
      work.run machine = .ok value between ∧ (rest value).run between = .ok result after := by
  rw [EStateM.run_bind] at hrun
  cases hwork : work.run machine with
  | ok value between =>
      rw [hwork] at hrun
      exact ⟨value, between, rfl, hrun⟩
  | error failure between =>
      rw [hwork] at hrun
      cases hrun

variable {look : Machine → Except Failure α} {machine : Machine} {failure : Failure}

theorem run_read_of_ok {value : α} (hlook : look machine = .ok value) :
    (read look).run machine = .ok value machine := by
  simp only [read, EStateM.run_bind, EStateM.run_get, hlook]
  rfl

theorem run_read_of_error (hlook : look machine = .error failure) :
    (read look).run machine = .error failure machine := by
  simp only [read, EStateM.run_bind, EStateM.run_get, hlook]
  rfl

theorem look_of_run_read {value : α} {after : Machine}
    (hrun : (read look).run machine = .ok value after) :
    look machine = .ok value ∧ after = machine := by
  cases hlook : look machine with
  | ok found =>
      rw [run_read_of_ok hlook] at hrun
      cases hrun
      exact ⟨rfl, rfl⟩
  | error failure =>
      rw [run_read_of_error hlook] at hrun
      cases hrun

end Execution

namespace Machine

open Execution

variable {program : Program} {instruction : Instruction} {calls : SystemCalls}
  {machine after : Machine} {target value : Word}

/-! ## Words on the stack -/

/-- The machine with a word pushed. -/
def pushed (machine : Machine) (value : Word) : Machine :=
  let stackPointer := machine.cpu.stackPointer - 2
  { machine with
    cpu := { machine.cpu with stackPointer }
    memory := machine.memory.setWord stackPointer.toNat value }

/-- The machine without the word on top of the stack. -/
def popped (machine : Machine) : Machine :=
  { machine with cpu := { machine.cpu with stackPointer := machine.cpu.stackPointer + 2 } }

/-- There is a word on the stack, all of it inside memory. -/
def HasTop (machine : Machine) : Prop :=
  machine.cpu.stackPointer ≠ 0 ∧ machine.cpu.stackPointer.toNat + 2 ≤ Memory.size

/-- The word on top of the stack, if there is one. -/
def top (machine : Machine) : Word := machine.memory.wordAt machine.cpu.stackPointer.toNat

theorem peek_of_hasTop (htop : machine.HasTop) : machine.peek = .ok machine.top := by
  rw [peek, if_neg htop.1, Memory.readWord, Memory.place_word, if_pos htop.2]
  rfl

theorem run_pop_of_hasTop (htop : machine.HasTop) :
    pop.run machine = .ok machine.top machine.popped := by
  rw [pop, EStateM.run_bind, run_read_of_ok (peek_of_hasTop htop)]
  rfl

theorem top_pushed (htop : (machine.pushed value).HasTop) :
    (machine.pushed value).top = value :=
  Memory.wordAt_setWord machine.memory value htop.2

theorem run_push (program : Program) (value : Word) (machine : Machine) :
    (push program value).run machine =
      let stackPointer := machine.cpu.stackPointer - 2
      if stackPointer = 0 ∨ touchesData program stackPointer.toNat then
        .error (.fault (.stackOverflow stackPointer)) machine
      else if stackPointer.toNat + 2 ≤ Memory.size then .ok () (machine.pushed value)
      else .error (.fault (.addressOutOfBounds stackPointer.toNat)) machine := by
  rw [push, EStateM.run_bind, EStateM.run_get]
  dsimp only
  by_cases hrefused : machine.cpu.stackPointer - 2 = 0 ∨
      touchesData program (machine.cpu.stackPointer - 2).toNat = true
  · rw [if_pos hrefused, if_pos hrefused]
    rfl
  · rw [if_neg hrefused, if_neg hrefused, EStateM.run_bind]
    simp only [EStateM.run, onMemory, Memory.writeWord, Memory.place_word]
    by_cases hfits : (machine.cpu.stackPointer - 2).toNat + 2 ≤ Memory.size
    · rw [if_pos hfits, if_pos hfits]
      rfl
    · rw [if_neg hfits, if_neg hfits]
      rfl

/-- A push that succeeds leaves its word on top. -/
theorem pushed_of_run_push (hpush : (push program value).run machine = .ok () after) :
    (machine.pushed value).HasTop ∧ after = machine.pushed value := by
  rw [run_push] at hpush
  dsimp only at hpush
  by_cases hrefused : machine.cpu.stackPointer - 2 = 0 ∨
      touchesData program (machine.cpu.stackPointer - 2).toNat = true
  · rw [if_pos hrefused] at hpush
    cases hpush
  · rw [if_neg hrefused] at hpush
    by_cases hfits : (machine.cpu.stackPointer - 2).toNat + 2 ≤ Memory.size
    · rw [if_pos hfits] at hpush
      cases hpush
      exact ⟨⟨fun hzero => hrefused (.inl hzero), hfits⟩, rfl⟩
    · rw [if_neg hfits] at hpush
      cases hpush

/-! ## Calls and returns -/

theorem pushed_of_run_call {flow : Flow}
    (hcall : (call program instruction).run machine = .ok flow after) :
    ∃ target,
      flow = .jump target ∧
        (machine.pushed (machine.cpu.instructionPointer + 1)).HasTop ∧
          after = machine.pushed (machine.cpu.instructionPointer + 1) := by
  obtain ⟨target, between, hread, hrest⟩ := exists_of_run_bind_ok hcall
  obtain ⟨-, rfl⟩ := look_of_run_read hread
  obtain ⟨found, same, hget, hrest⟩ := exists_of_run_bind_ok hrest
  cases hget
  obtain ⟨_, pushed, hpush, hjump⟩ := exists_of_run_bind_ok hrest
  obtain ⟨htop, rfl⟩ := pushed_of_run_push hpush
  cases hjump
  exact ⟨target, rfl, htop, rfl⟩

theorem run_ret_of_hasTop (program : Program) (htop : machine.HasTop) :
    (ret program).run machine =
      if isReturnTarget program machine.top then .ok (.jump machine.top) machine.popped
      else .error (.fault (.corruptReturn machine.top)) machine := by
  rw [ret, EStateM.run_bind, run_read_of_ok (peek_of_hasTop htop)]
  dsimp only
  by_cases htarget : isReturnTarget program machine.top = true
  · rw [if_pos htarget, if_pos htarget, EStateM.run_bind, run_pop_of_hasTop htop]
    rfl
  · rw [if_neg htarget, if_neg htarget]
    rfl

theorem pushed_of_step_call
    (hrunning : machine.cpu.halted = false)
    (hinstruction :
      program.instructionAt? machine.cpu.instructionPointer = some instruction)
    (hopcode : instruction.opcode = .call)
    (hstep : (step calls program).run machine = .ok () after) :
    let pushed := machine.pushed (machine.cpu.instructionPointer + 1)
    pushed.HasTop ∧
      after.cpu.stackPointer = pushed.cpu.stackPointer ∧ after.memory = pushed.memory := by
  have hexecute : execute calls program instruction = call program instruction := by
    rw [execute, hopcode]
  rw [step_of_instruction hrunning hinstruction, hexecute] at hstep
  cases hcall : (call program instruction).run machine with
  | error failure called =>
      rw [hcall] at hstep
      cases hstep
  | ok flow called =>
      obtain ⟨target, rfl, htop, rfl⟩ := pushed_of_run_call hcall
      rw [hcall] at hstep
      cases hstep
      exact ⟨htop, rfl, rfl⟩

theorem step_ret
    (hrunning : machine.cpu.halted = false)
    (hinstruction :
      program.instructionAt? machine.cpu.instructionPointer = some instruction)
    (hopcode : instruction.opcode = .ret) (htop : machine.HasTop) :
    (step calls program).run machine =
      if isReturnTarget program machine.top then
        .ok ()
          { machine.popped with
            cpu := { machine.popped.cpu with instructionPointer := machine.top } }
      else .error (.fault (.corruptReturn machine.top)) machine := by
  have hexecute : execute calls program instruction = ret program := by
    rw [execute, hopcode]
  rw [step_of_instruction hrunning hinstruction, hexecute, run_ret_of_hasTop program htop]
  by_cases htarget : isReturnTarget program machine.top = true
  · rw [if_pos htarget, if_pos htarget]
    rfl
  · rw [if_neg htarget, if_neg htarget]

end Machine
end WordMachine
