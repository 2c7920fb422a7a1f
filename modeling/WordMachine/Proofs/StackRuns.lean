import WordMachine.Proofs.StackFrames
import WordMachine.Proofs.WordStack

/-!
# The stack along a run

A push and a call put a word in front of the words on the stack, and a pop and a
return take one away.  This holds along every run in which the stack pointer is
moved by these alone and nothing is stored into the words of the stack.  Then a
pop or a return finds the stack empty exactly where the list of its words is, and
no access to it is out of bounds.
-/

namespace WordMachine
namespace Machine

open Execution

variable {calls : SystemCalls} {program : Program} {instruction : Instruction}
  {machine after : Machine} {stack : List Word} {word : Word}

/-! ## What a step does to the stack -/

/-- The instruction that the next step executes. -/
def current? (machine : Machine) (program : Program) : Option Instruction :=
  if machine.cpu.halted then none else program.instructionAt? machine.cpu.instructionPointer

theorem stackPointer_advance (flow : Flow) (cpu : Cpu) :
    (advance flow cpu).stackPointer = cpu.stackPointer := by
  cases flow with
  | next =>
      simp only [advance]
      split
      · rfl
      · rfl
  | jump | stay => rfl

theorem get_advance_next (cpu : Cpu) (register : Register) :
    (advance .next cpu).get register = cpu.get register := by
  simp only [advance]
  split
  · cases register with
    | general | stackPointer | basePointer => rfl
  · cases register with
    | general | stackPointer | basePointer => rfl

theorem step_of_current?_eq_none (hnone : machine.current? program = none) :
    (step calls program).run machine =
      .ok () (if machine.cpu.halted then machine else machine.halt) := by
  unfold current? at hnone
  cases hhalted : machine.cpu.halted with
  | true => exact step_of_halted hhalted
  | false =>
      rw [hhalted] at hnone
      exact step_of_no_instruction hhalted hnone

theorem current?_eq_some_iff :
    machine.current? program = some instruction ↔
      machine.cpu.halted = false ∧
        program.instructionAt? machine.cpu.instructionPointer = some instruction := by
  unfold current?
  cases machine.cpu.halted with
  | true => simp
  | false => simp

theorem step_of_current? (hcurrent : machine.current? program = some instruction) :
    (step calls program).run machine =
      match (execute calls program instruction).run machine with
      | .ok flow machine => .ok () { machine with cpu := advance flow machine.cpu }
      | .error failure machine => .error failure machine := by
  obtain ⟨hrunning, hinstruction⟩ := current?_eq_some_iff.mp hcurrent
  exact step_of_instruction hrunning hinstruction

theorem step_eq_error_iff_of_current? {failure : Failure}
    (hcurrent : machine.current? program = some instruction) :
    (step calls program).run machine = .error failure after ↔
      (execute calls program instruction).run machine = .error failure after := by
  obtain ⟨hrunning, hinstruction⟩ := current?_eq_some_iff.mp hcurrent
  exact step_eq_error_iff hrunning hinstruction

/-- The words on a stack after the next step. -/
def stackAfter (machine : Machine) (program : Program) (stack : List Word) : List Word :=
  match machine.current? program with
  | none => stack
  | some instruction =>
      match instruction.opcode with
      | .push =>
          match value program instruction 0 machine with
          | .ok word => word :: stack
          | .error _ => stack
      | .call => (machine.cpu.instructionPointer + 1) :: stack
      | .pop | .ret => stack.tail
      | _ => stack

theorem stackAfter_of_not_usesStack (hcurrent : machine.current? program = some instruction)
    (hother : instruction.opcode.usesStack = false) :
    machine.stackAfter program stack = stack := by
  rw [stackAfter, hcurrent]
  cases hopcode : instruction.opcode with
  | push | pop | call | ret =>
      rw [hopcode] at hother
      cases hother
  | _ => simp only [hopcode]

/-- The next step has no other way to a stack: it names the stack pointer for no result, and
stores below the words that are on the stack. -/
structure RespectsStack (machine : Machine) (program : Program) (stack : List Word) : Prop where
  destination : ∀ instruction, machine.current? program = some instruction →
    instruction.destination? ≠ some .stackPointer
  store : ∀ instruction start, machine.current? program = some instruction →
    instruction.opcode = .store → address program instruction 0 machine = .ok start →
      start + 2 ≤ 65536 - 2 * (stack.length : Int)

theorem setWord_of_run_onMemory {start : Int} {value : Unit}
    (hwrite : (onMemory (Memory.writeWord start word)).run machine = .ok value after) :
    (0 ≤ start ∧ start + 2 ≤ Memory.size) ∧
      after = { machine with memory := machine.memory.setWord start.toNat word } := by
  simp only [EStateM.run, onMemory, Memory.writeWord] at hwrite
  unfold Memory.place at hwrite
  split at hwrite
  next memory hrun =>
    cases hwrite
    split at hrun
    · cases hrun
    · split at hrun
      · cases hrun
      next hinside =>
        cases hrun
        exact ⟨by omega, rfl⟩
  · cases hwrite

namespace HasStack

theorem of_execute_push {flow : Flow} (hstack : machine.HasStack stack)
    (hcurrent : machine.current? program = some instruction)
    (hopcode : instruction.opcode = .push)
    (hexecute : (execute calls program instruction).run machine = .ok flow after) :
    after.HasStack (machine.stackAfter program stack) := by
  rw [execute, hopcode] at hexecute
  obtain ⟨_, middle, hwork, hnext⟩ := exists_of_run_bind_ok hexecute
  cases hnext
  obtain ⟨word, between, hread, hpush⟩ := exists_of_run_bind_ok hwork
  obtain ⟨hvalue, rfl⟩ := look_of_run_read hread
  obtain ⟨htop, rfl⟩ := pushed_of_run_push hpush
  have hafter : between.stackAfter program stack = word :: stack := by
    simp only [stackAfter, hcurrent, hopcode, hvalue]
  rw [hafter]
  exact hstack.pushed htop

theorem of_execute_call {flow : Flow} (hstack : machine.HasStack stack)
    (hcurrent : machine.current? program = some instruction)
    (hopcode : instruction.opcode = .call)
    (hexecute : (execute calls program instruction).run machine = .ok flow after) :
    after.HasStack (machine.stackAfter program stack) := by
  rw [execute, hopcode] at hexecute
  obtain ⟨target, -, htop, rfl⟩ := pushed_of_run_call hexecute
  have hafter : machine.stackAfter program stack =
      (machine.cpu.instructionPointer + 1) :: stack := by
    simp only [stackAfter, hcurrent, hopcode]
  rw [hafter]
  exact hstack.pushed htop

theorem of_execute_pop {flow : Flow} (hstack : machine.HasStack stack)
    (hcurrent : machine.current? program = some instruction)
    (hrespects : machine.RespectsStack program stack)
    (hopcode : instruction.opcode = .pop)
    (hexecute : (execute calls program instruction).run machine = .ok flow after) :
    after.HasStack (machine.stackAfter program stack) := by
  have hafter : machine.stackAfter program stack = stack.tail := by
    simp only [stackAfter, hcurrent, hopcode]
  rw [execute, hopcode] at hexecute
  obtain ⟨_, middle, hwork, hnext⟩ := exists_of_run_bind_ok hexecute
  cases hnext
  obtain ⟨register, between, hread, hrest⟩ := exists_of_run_bind_ok hwork
  obtain ⟨hregister, rfl⟩ := look_of_run_read hread
  obtain ⟨word, popped, hpop, hmodify⟩ := exists_of_run_bind_ok hrest
  cases hmodify
  have hother : register ≠ .stackPointer :=
    Instruction.ne_of_registerAt (hrespects.destination instruction hcurrent)
      (by rw [hopcode]; rfl) hregister
  rw [hafter]
  cases stack with
  | nil =>
      rw [run_pop_nil hstack] at hpop
      cases hpop
  | cons top stack =>
      rw [run_pop_cons hstack] at hpop
      cases hpop
      exact hstack.popped.of_eq (Cpu.stackPointer_set hother _ _) fun _ _ => rfl

theorem of_execute_ret {flow : Flow} (hstack : machine.HasStack stack)
    (hcurrent : machine.current? program = some instruction)
    (hopcode : instruction.opcode = .ret)
    (hexecute : (execute calls program instruction).run machine = .ok flow after) :
    after.HasStack (machine.stackAfter program stack) := by
  have hafter : machine.stackAfter program stack = stack.tail := by
    simp only [stackAfter, hcurrent, hopcode]
  rw [execute, hopcode] at hexecute
  rw [hafter]
  cases stack with
  | nil =>
      rw [run_ret_nil program hstack] at hexecute
      cases hexecute
  | cons top stack =>
      rw [run_ret_cons program hstack] at hexecute
      split at hexecute
      · cases hexecute
        exact hstack.popped
      · cases hexecute

theorem of_execute_store {flow : Flow} (hstack : machine.HasStack stack)
    (hcurrent : machine.current? program = some instruction)
    (hrespects : machine.RespectsStack program stack)
    (hopcode : instruction.opcode = .store)
    (hexecute : (execute calls program instruction).run machine = .ok flow after) :
    after.HasStack (machine.stackAfter program stack) := by
  have hsame : machine.stackAfter program stack = stack :=
    stackAfter_of_not_usesStack hcurrent (by rw [hopcode]; rfl)
  rw [execute, hopcode] at hexecute
  obtain ⟨_, middle, hwork, hnext⟩ := exists_of_run_bind_ok hexecute
  cases hnext
  obtain ⟨start, between, hread, hrest⟩ := exists_of_run_bind_ok hwork
  obtain ⟨haddress, rfl⟩ := look_of_run_read hread
  obtain ⟨word, between', hread', hwrite⟩ := exists_of_run_bind_ok hrest
  obtain ⟨-, rfl⟩ := look_of_run_read hread'
  obtain ⟨⟨hnonneg, -⟩, rfl⟩ := setWord_of_run_onMemory hwrite
  have hbelow := hrespects.store instruction start hcurrent hopcode haddress
  have hlength := hstack.length_le
  rw [hsame]
  refine hstack.of_eq rfl fun other hother => ?_
  rw [hstack.start] at hother
  have hroom : start.toNat + 2 ≤ Memory.size := by
    unfold Memory.size
    omega
  simp only [Memory.byte_setWord between'.memory word hroom]
  rw [if_neg (by omega), if_neg (by omega)]

theorem of_execute (hcalls : calls.LeaveStack) {flow : Flow} (hstack : machine.HasStack stack)
    (hcurrent : machine.current? program = some instruction)
    (hrespects : machine.RespectsStack program stack)
    (hexecute : (execute calls program instruction).run machine = .ok flow after) :
    after.HasStack (machine.stackAfter program stack) := by
  by_cases hstore : instruction.opcode = .store
  · exact hstack.of_execute_store hcurrent hrespects hstore hexecute
  · cases huses : instruction.opcode.usesStack with
    | false =>
        have hdestination := hrespects.destination instruction hcurrent
        obtain ⟨hmemory, hpointer⟩ :=
          execute_keepsStack hcalls hdestination huses hstore machine flow after hexecute
        rw [stackAfter_of_not_usesStack hcurrent huses]
        exact hstack.of_eq hpointer fun address _ => by rw [hmemory]
    | true =>
        cases hopcode : instruction.opcode with
        | push => exact hstack.of_execute_push hcurrent hopcode hexecute
        | pop => exact hstack.of_execute_pop hcurrent hrespects hopcode hexecute
        | call => exact hstack.of_execute_call hcurrent hopcode hexecute
        | ret => exact hstack.of_execute_ret hcurrent hopcode hexecute
        | _ =>
            rw [hopcode] at huses
            cases huses

theorem of_step (hcalls : calls.LeaveStack) (hstack : machine.HasStack stack)
    (hrespects : machine.RespectsStack program stack)
    (hstep : (step calls program).run machine = .ok () after) :
    after.HasStack (machine.stackAfter program stack) := by
  cases hcurrent : machine.current? program with
  | none =>
      rw [step_of_current?_eq_none hcurrent] at hstep
      rw [stackAfter, hcurrent]
      split at hstep
      · cases hstep
        exact hstack
      · cases hstep
        exact hstack.of_eq rfl fun _ _ => rfl
  | some instruction =>
      rw [step_of_current? hcurrent] at hstep
      cases hexecute : (execute calls program instruction).run machine with
      | error failure executed =>
          rw [hexecute] at hstep
          cases hstep
      | ok flow executed =>
          rw [hexecute] at hstep
          cases hstep
          have hexecuted := hstack.of_execute hcalls hcurrent hrespects hexecute
          exact hexecuted.of_eq (stackPointer_advance flow executed.cpu) fun _ _ => rfl

end HasStack

/-! ## Runs -/

/-- The machines that successful steps lead to, each with the number of the steps and the words
that have been pushed on the way and not taken back. -/
inductive StackRun (calls : Handler) (program : Program) (start : Machine) :
    Nat → Machine → List Word → Prop
  | start : StackRun calls program start 0 start []
  | step {count : Nat} {machine after : Machine} {stack : List Word} :
      StackRun calls program start count machine stack → machine.RespectsStack program stack →
        (Machine.step (calls count) program).run machine = .ok () after →
          StackRun calls program start (count + 1) after (machine.stackAfter program stack)

theorem StackRun.hasStack {calls : Handler} {start : Machine} {count : Nat}
    (hcalls : ∀ step, (calls step).LeaveStack) (hempty : start.cpu.stackPointer = 0)
    (hrun : StackRun calls program start count machine stack) : machine.HasStack stack := by
  induction hrun with
  | start => exact hasStack_nil hempty
  | @step count _ _ _ hearlier hrespects hstep ih => exact ih.of_step (hcalls count) hrespects hstep

/-! ## How the stack fails -/

theorem error_of_run_read {α : Type} {look : Machine → Except Failure α} {failure : Failure}
    (herror : (read look).run machine = .error failure after) :
    look machine = .error failure := by
  cases hlook : look machine with
  | ok value =>
      rw [run_read_of_ok hlook] at herror
      cases herror
  | error refusal =>
      rw [run_read_of_error hlook] at herror
      cases herror
      rfl

theorem error_of_run_thenNext {work : Execution Unit} {failure : Failure}
    (herror : (thenNext work).run machine = .error failure after) :
    work.run machine = .error failure after := by
  rcases error_of_run_bind herror with hwork | ⟨_, between, -, hnext⟩
  · exact hwork
  · cases hnext

theorem run_execute_pop {register : Register} (calls : SystemCalls) (program : Program)
    (machine : Machine) (hopcode : instruction.opcode = .pop)
    (hregister : instruction.registerAt 0 = .ok register) :
    (execute calls program instruction).run machine =
      match pop.run machine with
      | .ok word popped =>
          .ok .next
            { popped with
              cpu :=
                { popped.cpu.set register word with flags := Flags.ofResult word false false } }
      | .error failure popped => .error failure popped := by
  have hread : (read fun _ => instruction.registerAt 0).run machine = .ok register machine :=
    run_read_of_ok hregister
  have hexecute : execute calls program instruction = thenNext (popInto instruction) := by
    rw [execute, hopcode]
  rw [hexecute, thenNext, EStateM.run_bind, popInto, EStateM.run_bind, hread]
  dsimp only
  rw [EStateM.run_bind]
  cases pop.run machine with
  | ok word popped => rfl
  | error failure popped => rfl

end Machine

/-- A return, or a pop into a register. -/
def Instruction.TakesWord (instruction : Instruction) : Prop :=
  instruction.opcode = .ret ∨
    instruction.opcode = .pop ∧
      ∃ register, instruction.operands[0]? = some (.register register)

/-- A failure that an access to a stack can have. -/
structure StackFailure (instruction : Instruction) (stack : List Word) (failure : Failure) :
    Prop where
  underflow : failure.IsUnderflow → stack = [] ∧ instruction.TakesWord
  inside : ∀ address, failure ≠ .fault (.addressOutOfBounds address)

theorem stackFailure_of_blamesOperand {instruction : Instruction} {failure : Failure}
    (stack : List Word) (hblames : failure.BlamesOperand) :
    StackFailure instruction stack failure where
  underflow hunderflow := absurd hunderflow hblames.not_isUnderflow
  inside := by
    rintro address rfl
    exact hblames

namespace Machine

open Execution

variable {calls : SystemCalls} {program : Program} {instruction : Instruction}
  {machine after : Machine} {stack : List Word} {word : Word} {failure : Failure}

namespace HasStack

theorem stackFailure_push (hstack : machine.HasStack stack)
    (herror : (push program word).run machine = .error failure after) :
    StackFailure instruction stack failure := by
  obtain ⟨pointer, rfl⟩ := overflow_of_run_push hstack herror
  exact ⟨nofun, nofun⟩

theorem stackFailure_call (hstack : machine.HasStack stack)
    (herror : (call program instruction).run machine = .error failure after) :
    StackFailure instruction stack failure := by
  rcases error_of_run_bind herror with hread | ⟨target, between, hread, hrest⟩
  · have htarget := failsAtOperand_target failure (error_of_run_read hread)
    exact stackFailure_of_blamesOperand stack htarget
  · obtain ⟨-, rfl⟩ := look_of_run_read hread
    rcases error_of_run_bind hrest with hget | ⟨found, same, hget, hlater⟩
    · cases hget
    · cases hget
      rcases error_of_run_bind hlater with hpush | ⟨_, pushed, -, hjump⟩
      · exact hstack.stackFailure_push hpush
      · cases hjump

theorem stackFailure_pop (hstack : machine.HasStack stack)
    (hopcode : instruction.opcode = .pop)
    (herror : (execute calls program instruction).run machine = .error failure after) :
    StackFailure instruction stack failure := by
  cases hregister : instruction.registerAt 0 with
  | error refusal =>
      rw [execute, hopcode] at herror
      have hblames : failure.BlamesOperand := by
        rcases error_of_run_bind (error_of_run_thenNext herror) with hread | ⟨_, _, hread, -⟩
        · exact failsAtOperand_registerAt failure (error_of_run_read hread)
        · obtain ⟨hok, -⟩ := look_of_run_read hread
          rw [hregister] at hok
          cases hok
      exact stackFailure_of_blamesOperand stack hblames
  | ok register =>
      rw [run_execute_pop calls program machine hopcode hregister] at herror
      cases stack with
      | nil =>
          rw [run_pop_nil hstack] at herror
          cases herror
          have hoperand := Instruction.registerAt_eq_ok_iff.mp hregister
          have htakes : instruction.TakesWord := .inr ⟨hopcode, register, hoperand⟩
          refine ⟨fun _ => ⟨rfl, htakes⟩, fun address hinside => ?_⟩
          cases hinside
      | cons word stack =>
          rw [run_pop_cons hstack] at herror
          cases herror

theorem stackFailure_ret (hstack : machine.HasStack stack) (hopcode : instruction.opcode = .ret)
    (herror : (ret program).run machine = .error failure after) :
    StackFailure instruction stack failure := by
  cases stack with
  | nil =>
      rw [run_ret_nil program hstack] at herror
      cases herror
      exact ⟨fun _ => ⟨rfl, .inl hopcode⟩, nofun⟩
  | cons word stack =>
      rw [run_ret_cons program hstack] at herror
      split at herror
      · cases herror
      · cases herror
        exact ⟨nofun, nofun⟩

theorem stackFailure (hstack : machine.HasStack stack)
    (huses : instruction.opcode.usesStack = true)
    (herror : (execute calls program instruction).run machine = .error failure after) :
    StackFailure instruction stack failure := by
  cases hopcode : instruction.opcode with
  | push =>
      rw [execute, hopcode] at herror
      rcases error_of_run_bind (error_of_run_thenNext herror) with
        hread | ⟨word, between, hread, hpush⟩
      · have hvalue := failsAtOperand_value failure (error_of_run_read hread)
        exact stackFailure_of_blamesOperand stack hvalue
      · obtain ⟨-, rfl⟩ := look_of_run_read hread
        exact hstack.stackFailure_push hpush
  | pop => exact hstack.stackFailure_pop hopcode herror
  | call =>
      rw [execute, hopcode] at herror
      exact hstack.stackFailure_call herror
  | ret =>
      rw [execute, hopcode] at herror
      exact hstack.stackFailure_ret hopcode herror
  | _ =>
      rw [hopcode] at huses
      cases huses

/-- An empty stack is found by exactly the instructions that take a word from it. -/
theorem run_execute_nil (calls : SystemCalls) (program : Program) (hstack : machine.HasStack [])
    (htakes : instruction.TakesWord) :
    (execute calls program instruction).run machine =
      .error (.fault .stackUnderflow) machine := by
  rcases htakes with hopcode | ⟨hopcode, register, hoperand⟩
  · rw [execute, hopcode]
    exact run_ret_nil program hstack
  · have hregister := Instruction.registerAt_eq_ok_iff.mpr hoperand
    rw [run_execute_pop calls program machine hopcode hregister, run_pop_nil hstack]

theorem run_step_pop {register : Register} (hstack : machine.HasStack (word :: stack))
    (hcurrent : machine.current? program = some instruction) (hopcode : instruction.opcode = .pop)
    (hoperand : instruction.operands[0]? = some (.register register)) :
    ∃ after,
      (step calls program).run machine = .ok () after ∧ after.cpu.get register = word := by
  have hregister := Instruction.registerAt_eq_ok_iff.mpr hoperand
  rw [step_of_current? hcurrent, run_execute_pop calls program machine hopcode hregister,
    run_pop_cons hstack]
  refine ⟨_, rfl, ?_⟩
  have hset : (machine.popped.cpu.set register word).get register = word := by
    rw [Cpu.get_set, if_pos rfl]
  rw [get_advance_next]
  exact hset

theorem underflow_iff (hcalls : calls.LeaveStack) (hstack : machine.HasStack stack) :
    (∃ machine', (step calls program).run machine = .error (.fault .stackUnderflow) machine') ↔
      stack = [] ∧
        ∃ instruction, machine.current? program = some instruction ∧ instruction.TakesWord := by
  constructor
  · rintro ⟨machine', hstep⟩
    cases hcurrent : machine.current? program with
    | none =>
        rw [step_of_current?_eq_none hcurrent] at hstep
        cases hstep
    | some instruction =>
        have hexecute := (step_eq_error_iff_of_current? hcurrent).mp hstep
        cases huses : instruction.opcode.usesStack with
        | false => exact absurd rfl (execute_avoids_underflow hcalls huses _ _ _ hexecute)
        | true =>
            obtain ⟨hnil, htakes⟩ := (hstack.stackFailure huses hexecute).underflow rfl
            exact ⟨hnil, instruction, rfl, htakes⟩
  · rintro ⟨rfl, instruction, hcurrent, htakes⟩
    have hexecute := run_execute_nil calls program hstack htakes
    exact ⟨machine, (step_eq_error_iff_of_current? hcurrent).mpr hexecute⟩

end HasStack

end Machine

/-- The machine stack is a list of words.  On a run from an empty stack by steps that move the
stack pointer only by pushes, pops, calls and returns and store nothing into the words of the
stack, these are the words from the stack pointer to the end of memory, the last one pushed in
front.  The host may come to do other things, but must leave the stack alone at every step.  A pop
delivers the word in front, an empty stack is found by exactly the pops and returns, and no
access to the stack is out of bounds. -/
theorem stack_is_list_of_words
    (calls : Handler) (program : Program) (start machine : Machine) (count : Nat)
    (stack : List Word) (hcalls : ∀ step, (calls step).LeaveStack)
    (hempty : start.cpu.stackPointer = 0)
    (hrun : Machine.StackRun calls program start count machine stack) :
    let step := (Machine.step (calls count) program).run machine
    machine.cpu.stackPointer.toNat = (65536 - 2 * stack.length) % 65536 ∧
      machine.stackWords = stack ∧ stack.length ≤ 32767 ∧
        (∀ instruction register word rest,
          machine.current? program = some instruction → instruction.opcode = .pop →
            instruction.operands[0]? = some (.register register) → stack = word :: rest →
              ∃ after, step = .ok () after ∧ after.cpu.get register = word) ∧
          ((∃ machine', step = .error (.fault .stackUnderflow) machine') ↔
            stack = [] ∧ ∃ instruction,
              machine.current? program = some instruction ∧ instruction.TakesWord) ∧
            ∀ instruction address machine',
              machine.current? program = some instruction →
                instruction.opcode.usesStack = true →
                  step ≠ .error (.fault (.addressOutOfBounds address)) machine' := by
  intro step
  have hstack := hrun.hasStack hcalls hempty
  refine ⟨hstack.toNat_stackPointer, hstack.words, hstack.length_le, ?_,
    hstack.underflow_iff (hcalls count), ?_⟩
  · rintro instruction register word rest hcurrent hopcode hoperand rfl
    exact hstack.run_step_pop hcurrent hopcode hoperand
  · intro instruction address machine' hcurrent huses hfails
    have hexecute := (Machine.step_eq_error_iff_of_current? hcurrent).mp hfails
    exact (hstack.stackFailure huses hexecute).inside address rfl

/-- A word that is pushed and taken back. -/
def Program.pushPop : Program where
  instructions :=
    #[{ opcode := .push, operands := [.immediate 1],
        line := 1, column := 1, source := "PUSH #1".toList, address := 0 },
      { opcode := .pop, operands := [.register .basePointer],
        line := 2, column := 1, source := "POP BP".toList, address := 1 }]
  symbols := {}
  data := #[]
  textStart := 0
  dataStart := 0

theorem stack_is_list_of_words_pushPop :
    let start := Machine.ofProgram .pushPop
    let step := Machine.step .standard .pushPop
    ∃ machine,
      Machine.StackRun .standard .pushPop start 1 machine [1] ∧ machine.stackWords = [1] ∧
        machine.cpu.stackPointer.toNat = 65534 ∧
          ∃ after, step.run machine = .ok () after ∧ after.cpu.basePointer = 1 := by
  intro start step
  obtain ⟨machine, hstep, hcurrent⟩ : ∃ machine,
      step.run start = .ok () machine ∧
        machine.current? .pushPop = some Program.pushPop.instructions[1] :=
    ⟨_, rfl, rfl⟩
  have hrespects : start.RespectsStack .pushPop [] := by
    constructor
    · intro instruction hpush
      cases hpush
      decide
    · intro instruction address hpush hstore
      cases hpush
      cases hstore
  have hrun : Machine.StackRun .standard .pushPop start 1 machine [1] :=
    .step .start hrespects hstep
  obtain ⟨hpointer, hwords, -, hpop, -⟩ :=
    stack_is_list_of_words .standard .pushPop start machine 1 [1]
      (fun _ => SystemCalls.standard_leaveStack) rfl hrun
  exact ⟨machine, hrun, hwords, hpointer, hpop _ .basePointer 1 [] hcurrent rfl rfl rfl⟩

/-- A pop into a number. -/
def Program.popNumber : Program where
  instructions :=
    #[{ opcode := .pop, operands := [.immediate 3],
        line := 1, column := 1, source := "POP 3".toList, address := 0 }]
  symbols := {}
  data := #[]
  textStart := 0
  dataStart := 0

def Program.systemCall : Program where
  instructions :=
    #[{ opcode := .sys, operands := [.immediate 0],
        line := 1, column := 1, source := "SYS 0".toList, address := 0 }]
  symbols := {}
  data := #[]
  textStart := 0
  dataStart := 0

/-- A host that moves the stack pointer. -/
def SystemCalls.moving : SystemCalls := fun _ _ =>
  modify fun view => { view with cpu := { view.cpu with stackPointer := 7 } }

/-- A host that says the stack is empty. -/
def SystemCalls.complaining : SystemCalls := fun _ _ => throw (.fault .stackUnderflow)

/-- An empty stack is not the fault of a pop into something that is no register, and a host can
move the stack pointer or find the stack empty where no instruction does. -/
theorem stack_is_list_of_words_limits :
    let start := Machine.ofProgram .popNumber
    let calling := Machine.ofProgram .systemCall
    (start.cpu.stackPointer = 0 ∧
        (Machine.step .standard .popNumber).run start =
          .error (.fault (.invalidOperand .pop 1)) start) ∧
      (∃ machine, Machine.StackRun (.always .moving) .systemCall calling 1 machine [] ∧
        machine.cpu.stackPointer = 7) ∧
        (Machine.step .complaining .systemCall).run calling =
          .error (.fault .stackUnderflow) calling := by
  intro start calling
  have hrespects : calling.RespectsStack .systemCall [] := by
    constructor
    · intro instruction hcall
      cases hcall
      decide
    · intro instruction address hcall hstore
      cases hcall
      cases hstore
  refine ⟨⟨rfl, rfl⟩, ⟨_, .step .start hrespects rfl, rfl⟩, rfl⟩

end WordMachine
