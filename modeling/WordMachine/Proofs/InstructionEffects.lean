import WordMachine.Proofs.StackRuns

/-!
# What each instruction comes to

An instruction that succeeds has one effect: it puts a result into its
destination, stores a word, moves the stack, sets the flags, goes elsewhere,
writes to the console, stops or does nothing.  `effect_of_execute` goes through
the opcodes once; whatever is to be known of a step is then read off its effect.
-/

namespace WordMachine

namespace Opcode

/-- Whether the carry and overflow flags are cleared, whatever the result. -/
def clearsCarry : Opcode → Bool
  | mov | load | pop | not | and | or | xor | shl | shr => true
  | _ => false

/-- Whether a word is written to memory. -/
def writesMemory : Opcode → Bool
  | store | push | call => true
  | _ => false

/-- A jump, conditional or not. -/
def isJump : Opcode → Bool
  | jmp | je | jnz | jg | jge | jl | jle | jc | jnc => true
  | _ => false

/-! The three are told apart from results and jumps. -/

variable {opcode : Opcode}

theorem writesMemory_of_writesRegister (hwrites : opcode.writesRegister = true) :
    opcode.writesMemory = false := by
  cases opcode <;> first | rfl | cases hwrites

theorem writesMemory_of_isJump (hjump : opcode.isJump = true) : opcode.writesMemory = false := by
  cases opcode <;> first | rfl | cases hjump

theorem writesRegister_of_isJump (hjump : opcode.isJump = true) :
    opcode.writesRegister = false := by
  cases opcode <;> first | rfl | cases hjump

theorem clearsCarry_of_isJump (hjump : opcode.isJump = true) : opcode.clearsCarry = false := by
  cases opcode <;> first | rfl | cases hjump

theorem jumps_of_writesRegister (hwrites : opcode.writesRegister = true) (flags : Flags) :
    flags.jumps opcode = false := by
  cases opcode <;> first | rfl | cases hwrites

end Opcode

namespace Machine

open Execution

variable {program : Program} {instruction : Instruction} {machine after : Machine}

/-- The machine with an outcome in a register and the flags set by it. -/
def written (machine : Machine) (destination : Register) (outcome : Outcome) : Machine :=
  { machine with
    cpu :=
      { machine.cpu.set destination outcome.value with
        flags := Flags.ofResult outcome.value outcome.carry outcome.overflow } }

/-- The machine with the flags set by an outcome that is not kept. -/
def compared (machine : Machine) (outcome : Outcome) : Machine :=
  { machine with
    cpu :=
      { machine.cpu with
        flags := Flags.ofResult outcome.value outcome.carry outcome.overflow } }

/-- What an instruction that succeeds does to a machine, short of moving the instruction pointer,
and where execution goes on. -/
inductive Effect (program : Program) (instruction : Instruction) (machine : Machine) :
    Flow → Machine → Prop
  | wrote {destination : Register} {outcome : Outcome}
      (writes : instruction.opcode.writesRegister = true)
      (other : instruction.opcode ≠ .pop)
      (register : instruction.registerAt 0 = .ok destination)
      (clears : instruction.opcode.clearsCarry = true →
        outcome.carry = false ∧ outcome.overflow = false) :
      Effect program instruction machine .next (machine.written destination outcome)
  | stored {start : Int} {word : Word} (opcode : instruction.opcode = .store)
      (place : address program instruction 0 machine = .ok start)
      (source : value program instruction 1 machine = .ok word)
      (inside : 0 ≤ start ∧ start + 2 ≤ Memory.size) :
      Effect program instruction machine .next
        { machine with memory := machine.memory.setWord start.toNat word }
  | pushed {word : Word} (opcode : instruction.opcode = .push)
      (source : value program instruction 0 machine = .ok word)
      (top : (machine.pushed word).HasTop) :
      Effect program instruction machine .next (machine.pushed word)
  | popped {destination : Register} (opcode : instruction.opcode = .pop)
      (register : instruction.registerAt 0 = .ok destination) :
      Effect program instruction machine .next
        (machine.popped.written destination { value := machine.top })
  | compared {a b : Word} (opcode : instruction.opcode = .cmp)
      (left : registerValue instruction 0 machine = .ok a)
      (right : value program instruction 1 machine = .ok b) :
      Effect program instruction machine .next (machine.compared (Arithmetic.sub a b))
  | jumped {destination : Word}
      (jump : instruction.opcode.isJump = true)
      (taken : machine.cpu.flags.jumps instruction.opcode = true)
      (target : target program instruction = .ok destination) :
      Effect program instruction machine (.jump destination) machine
  | passed (jump : instruction.opcode.isJump = true)
      (passed : machine.cpu.flags.jumps instruction.opcode = false) :
      Effect program instruction machine .next machine
  | called {destination : Word} (opcode : instruction.opcode = .call)
      (target : target program instruction = .ok destination)
      (top : (machine.pushed (machine.cpu.instructionPointer + 1)).HasTop) :
      Effect program instruction machine (.jump destination)
        (machine.pushed (machine.cpu.instructionPointer + 1))
  | returned (opcode : instruction.opcode = .ret) :
      Effect program instruction machine (.jump machine.top) machine.popped
  | asked {number : Word} {console : Console} (opcode : instruction.opcode = .sys)
      (source : value program instruction 0 machine = .ok number) (other : number ≠ 0) :
      Effect program instruction machine .next { machine with console }
  | idled (opcode : instruction.opcode = .nop) :
      Effect program instruction machine .next machine
  | stopped (opcode : instruction.opcode = .sys)
      (source : value program instruction 0 machine = .ok 0) :
      Effect program instruction machine .stay machine.halt
  | halted (opcode : instruction.opcode = .hlt) :
      Effect program instruction machine .stay machine.halt

/-! ## The actions of instructions -/

theorem exists_of_run_thenNext {work : Execution Unit} {flow : Flow}
    (hrun : (thenNext work).run machine = .ok flow after) :
    flow = .next ∧ work.run machine = .ok () after := by
  obtain ⟨_, between, hwork, hnext⟩ := exists_of_run_bind_ok hrun
  cases hnext
  exact ⟨rfl, hwork⟩

theorem written_of_run_write {outcome : Outcome}
    (hrun : (write instruction outcome).run machine = .ok () after) :
    ∃ destination,
      instruction.registerAt 0 = .ok destination ∧ after = machine.written destination outcome := by
  obtain ⟨destination, between, hread, hmodify⟩ := exists_of_run_bind_ok hrun
  obtain ⟨hregister, rfl⟩ := look_of_run_read hread
  cases hmodify
  exact ⟨destination, hregister, rfl⟩

theorem operation_of_run_compute {operation : Word → Word → Except Fault Outcome}
    {outcome : Outcome}
    (hrun : (compute program instruction operation).run machine = .ok outcome after) :
    after = machine ∧
      ∃ a b,
        registerValue instruction 0 machine = .ok a ∧
          value program instruction 1 machine = .ok b ∧ operation a b = .ok outcome := by
  obtain ⟨a, between, hread, hrest⟩ := exists_of_run_bind_ok hrun
  obtain ⟨hleft, rfl⟩ := look_of_run_read hread
  obtain ⟨b, between', hread', hlift⟩ := exists_of_run_bind_ok hrest
  obtain ⟨hright, rfl⟩ := look_of_run_read hread'
  cases hoperation : operation a b with
  | error fault =>
      rw [hoperation] at hlift
      cases hlift
  | ok result =>
      rw [hoperation] at hlift
      cases hlift
      exact ⟨rfl, a, b, hleft, hright, hoperation⟩

theorem hasTop_of_peek {word : Word} (hpeek : machine.peek = .ok word) : machine.HasTop := by
  unfold peek at hpeek
  split at hpeek
  · cases hpeek
  next hnonzero =>
    refine ⟨hnonzero, ?_⟩
    by_cases hfits : machine.cpu.stackPointer.toNat + 2 ≤ Memory.size
    · exact hfits
    · rw [Memory.readWord, Memory.place_word, if_neg hfits] at hpeek
      cases hpeek

theorem hasTop_of_run_read_peek {word : Word} (hread : (read peek).run machine = .ok word after) :
    machine.HasTop :=
  hasTop_of_peek (look_of_run_read hread).1

theorem popped_of_run_pop {word : Word} (hpop : pop.run machine = .ok word after) :
    word = machine.top ∧ after = machine.popped := by
  obtain ⟨_, _, hread, -⟩ := exists_of_run_bind_ok hpop
  rw [run_pop_of_hasTop (hasTop_of_run_read_peek hread)] at hpop
  cases hpop
  exact ⟨rfl, rfl⟩

/-- The standard host stops the machine or writes to the console. -/
theorem view_of_run_standard {number : Word} {memory : Memory} {view view' : HostView}
    (hcall : (SystemCalls.standard number memory).run view = .ok () view') :
    (number = 0 ∧ view' = { view with cpu := { view.cpu with halted := true } }) ∨
      number ≠ 0 ∧ ∃ console, view' = { view with console } := by
  have hother : ∀ {count : Nat}, number.toNat = count + 1 → number ≠ 0 := by
    rintro count hnumber rfl
    cases hnumber
  unfold SystemCalls.standard at hcall
  split at hcall
  next hzero =>
    cases hcall
    exact .inl ⟨BitVec.eq_of_toNat_eq hzero, rfl⟩
  next hnumber =>
    cases hcall
    exact .inr ⟨hother hnumber, _, rfl⟩
  next hnumber =>
    cases hcall
    exact .inr ⟨hother hnumber, _, rfl⟩
  next hnumber =>
    cases hcall
    exact .inr ⟨hother hnumber, _, rfl⟩
  next hnumber =>
    cases hcall
    exact .inr ⟨hother hnumber, _, rfl⟩
  · cases hcall

/-! ## The effect of each opcode -/

theorem effect_of_write {outcome : Outcome} {flow : Flow}
    (hwrites : instruction.opcode.writesRegister = true) (hother : instruction.opcode ≠ .pop)
    (hclears : instruction.opcode.clearsCarry = true →
      outcome.carry = false ∧ outcome.overflow = false)
    (hflow : flow = .next)
    (hrun : (write instruction outcome).run machine = .ok () after) :
    Effect program instruction machine flow after := by
  obtain ⟨destination, hregister, rfl⟩ := written_of_run_write hrun
  rw [hflow]
  exact .wrote hwrites hother hregister hclears

theorem effect_of_binary {operation : Word → Word → Except Fault Outcome} {flow : Flow}
    (hwrites : instruction.opcode.writesRegister = true) (hother : instruction.opcode ≠ .pop)
    (hclears : instruction.opcode.clearsCarry = true →
      ∀ a b outcome, operation a b = .ok outcome →
        outcome.carry = false ∧ outcome.overflow = false)
    (hrun : (thenNext (binary program instruction operation)).run machine = .ok flow after) :
    Effect program instruction machine flow after := by
  obtain ⟨hflow, hbinary⟩ := exists_of_run_thenNext hrun
  obtain ⟨outcome, between, hcompute, hwrite⟩ := exists_of_run_bind_ok hbinary
  obtain ⟨rfl, a, b, -, -, hoperation⟩ := operation_of_run_compute hcompute
  exact effect_of_write hwrites hother (fun hplain => hclears hplain a b outcome hoperation)
    hflow hwrite

theorem effect_of_unary {operation : Word → Outcome} {flow : Flow}
    (hwrites : instruction.opcode.writesRegister = true) (hother : instruction.opcode ≠ .pop)
    (hclears : instruction.opcode.clearsCarry = true →
      ∀ a, (operation a).carry = false ∧ (operation a).overflow = false)
    (hrun : (thenNext (unary instruction operation)).run machine = .ok flow after) :
    Effect program instruction machine flow after := by
  obtain ⟨hflow, hunary⟩ := exists_of_run_thenNext hrun
  obtain ⟨a, between, hread, hwrite⟩ := exists_of_run_bind_ok hunary
  obtain ⟨-, rfl⟩ := look_of_run_read hread
  exact effect_of_write hwrites hother (fun hplain => hclears hplain a) hflow hwrite

theorem effect_of_move {flow : Flow} (hopcode : instruction.opcode = .mov)
    (hrun : (thenNext (move program instruction)).run machine = .ok flow after) :
    Effect program instruction machine flow after := by
  obtain ⟨hflow, hmove⟩ := exists_of_run_thenNext hrun
  obtain ⟨word, between, hread, hwrite⟩ := exists_of_run_bind_ok hmove
  obtain ⟨-, rfl⟩ := look_of_run_read hread
  have hwrites : instruction.opcode.writesRegister = true := by rw [hopcode]; rfl
  have hother : instruction.opcode ≠ .pop := by rw [hopcode]; nofun
  exact effect_of_write hwrites hother (fun _ => ⟨rfl, rfl⟩) hflow hwrite

theorem effect_of_load {flow : Flow} (hopcode : instruction.opcode = .load)
    (hrun : (thenNext (load program instruction)).run machine = .ok flow after) :
    Effect program instruction machine flow after := by
  obtain ⟨hflow, hload⟩ := exists_of_run_thenNext hrun
  obtain ⟨start, between, hread, hrest⟩ := exists_of_run_bind_ok hload
  obtain ⟨-, rfl⟩ := look_of_run_read hread
  obtain ⟨word, between', hread', hwrite⟩ := exists_of_run_bind_ok hrest
  obtain ⟨-, rfl⟩ := look_of_run_read hread'
  have hwrites : instruction.opcode.writesRegister = true := by rw [hopcode]; rfl
  have hother : instruction.opcode ≠ .pop := by rw [hopcode]; nofun
  exact effect_of_write hwrites hother (fun _ => ⟨rfl, rfl⟩) hflow hwrite

theorem effect_of_store {flow : Flow} (hopcode : instruction.opcode = .store)
    (hrun : (thenNext (store program instruction)).run machine = .ok flow after) :
    Effect program instruction machine flow after := by
  obtain ⟨rfl, hstore⟩ := exists_of_run_thenNext hrun
  obtain ⟨start, between, hread, hrest⟩ := exists_of_run_bind_ok hstore
  obtain ⟨hplace, rfl⟩ := look_of_run_read hread
  obtain ⟨word, between', hread', hwrite⟩ := exists_of_run_bind_ok hrest
  obtain ⟨hsource, rfl⟩ := look_of_run_read hread'
  obtain ⟨hinside, rfl⟩ := setWord_of_run_onMemory hwrite
  exact .stored hopcode hplace hsource hinside

theorem effect_of_push {flow : Flow} (hopcode : instruction.opcode = .push)
    (hrun : (thenNext do push program (← read (value program instruction 0))).run machine =
      .ok flow after) :
    Effect program instruction machine flow after := by
  obtain ⟨rfl, hwork⟩ := exists_of_run_thenNext hrun
  obtain ⟨word, between, hread, hpush⟩ := exists_of_run_bind_ok hwork
  obtain ⟨hsource, rfl⟩ := look_of_run_read hread
  obtain ⟨htop, rfl⟩ := pushed_of_run_push hpush
  exact .pushed hopcode hsource htop

theorem effect_of_popInto {flow : Flow} (hopcode : instruction.opcode = .pop)
    (hrun : (thenNext (popInto instruction)).run machine = .ok flow after) :
    Effect program instruction machine flow after := by
  obtain ⟨rfl, hwork⟩ := exists_of_run_thenNext hrun
  obtain ⟨destination, between, hread, hrest⟩ := exists_of_run_bind_ok hwork
  obtain ⟨hregister, rfl⟩ := look_of_run_read hread
  obtain ⟨word, between', hpop, hmodify⟩ := exists_of_run_bind_ok hrest
  obtain ⟨rfl, rfl⟩ := popped_of_run_pop hpop
  cases hmodify
  exact .popped hopcode hregister

theorem effect_of_compare {flow : Flow} (hopcode : instruction.opcode = .cmp)
    (hrun : (thenNext (compare program instruction)).run machine = .ok flow after) :
    Effect program instruction machine flow after := by
  obtain ⟨rfl, hwork⟩ := exists_of_run_thenNext hrun
  obtain ⟨outcome, between, hcompute, hmodify⟩ := exists_of_run_bind_ok hwork
  obtain ⟨rfl, a, b, hleft, hright, hoperation⟩ := operation_of_run_compute hcompute
  cases hoperation
  cases hmodify
  exact .compared hopcode hleft hright

theorem effect_of_branch {flow : Flow} (hjump : instruction.opcode.isJump = true)
    (hrun : (branch program instruction).run machine = .ok flow after) :
    Effect program instruction machine flow after := by
  obtain ⟨found, between, hget, hrest⟩ := exists_of_run_bind_ok hrun
  cases hget
  split at hrest
  next htaken =>
    obtain ⟨destination, between, hread, hflow⟩ := exists_of_run_bind_ok hrest
    obtain ⟨htarget, rfl⟩ := look_of_run_read hread
    cases hflow
    exact .jumped hjump htaken htarget
  next hpassed =>
    cases hrest
    exact .passed hjump (Bool.eq_false_iff.mpr hpassed)

theorem effect_of_call {flow : Flow} (hopcode : instruction.opcode = .call)
    (hrun : (call program instruction).run machine = .ok flow after) :
    Effect program instruction machine flow after := by
  obtain ⟨destination, between, hread, hrest⟩ := exists_of_run_bind_ok hrun
  obtain ⟨htarget, rfl⟩ := look_of_run_read hread
  obtain ⟨found, same, hget, hrest⟩ := exists_of_run_bind_ok hrest
  cases hget
  obtain ⟨_, pushed, hpush, hjump⟩ := exists_of_run_bind_ok hrest
  obtain ⟨htop, rfl⟩ := pushed_of_run_push hpush
  cases hjump
  exact .called hopcode htarget htop

theorem effect_of_ret {flow : Flow} (hopcode : instruction.opcode = .ret)
    (hrun : (ret program).run machine = .ok flow after) :
    Effect program instruction machine flow after := by
  obtain ⟨_, _, hread, -⟩ := exists_of_run_bind_ok hrun
  rw [run_ret_of_hasTop program (hasTop_of_run_read_peek hread)] at hrun
  split at hrun
  · cases hrun
    exact .returned hopcode
  · cases hrun

theorem effect_of_sys {flow : Flow} (hopcode : instruction.opcode = .sys)
    (hrunning : machine.cpu.halted = false)
    (hrun : EStateM.run
      (do systemCall .standard (← read (value program instruction 0))) machine =
        .ok flow after) :
    Effect program instruction machine flow after := by
  obtain ⟨number, between, hread, hrest⟩ := exists_of_run_bind_ok hrun
  obtain ⟨hsource, rfl⟩ := look_of_run_read hread
  obtain ⟨_, asked, hasked, hrest⟩ := exists_of_run_bind_ok hrest
  obtain ⟨found, same, hget, hflow⟩ := exists_of_run_bind_ok hrest
  cases hget
  simp only [EStateM.run, onHostView] at hasked
  split at hasked
  next value view hcall =>
    cases hasked
    rcases view_of_run_standard hcall with ⟨rfl, rfl⟩ | ⟨hother, console, rfl⟩
    · cases hflow
      exact .stopped hopcode hsource
    · simp only [hrunning] at hflow
      cases hflow
      exact .asked hopcode hsource hother
  · cases hasked

/-- An instruction that succeeds has one of the effects. -/
theorem effect_of_execute {flow : Flow} (hrunning : machine.cpu.halted = false)
    (hrun : (execute .standard program instruction).run machine = .ok flow after) :
    Effect program instruction machine flow after := by
  unfold execute at hrun
  cases hopcode : instruction.opcode with
  | mov =>
      rw [hopcode] at hrun
      exact effect_of_move hopcode hrun
  | load =>
      rw [hopcode] at hrun
      exact effect_of_load hopcode hrun
  | store =>
      rw [hopcode] at hrun
      exact effect_of_store hopcode hrun
  | push =>
      rw [hopcode] at hrun
      exact effect_of_push hopcode hrun
  | pop =>
      rw [hopcode] at hrun
      exact effect_of_popInto hopcode hrun
  | cmp =>
      rw [hopcode] at hrun
      exact effect_of_compare hopcode hrun
  | add | sub | mul | div | mod =>
      rw [hopcode] at hrun
      refine effect_of_binary ?_ ?_ ?_ hrun
      · rw [hopcode]
        rfl
      · rw [hopcode]
        nofun
      · rw [hopcode]
        nofun
  | and | or | xor | shl | shr =>
      rw [hopcode] at hrun
      refine effect_of_binary ?_ ?_ ?_ hrun
      · rw [hopcode]
        rfl
      · rw [hopcode]
        nofun
      · intro _ a b outcome houtcome
        cases houtcome
        exact ⟨rfl, rfl⟩
  | inc | dec | neg =>
      rw [hopcode] at hrun
      refine effect_of_unary ?_ ?_ ?_ hrun
      · rw [hopcode]
        rfl
      · rw [hopcode]
        nofun
      · intro hclears
        rw [hopcode] at hclears
        cases hclears
  | not =>
      rw [hopcode] at hrun
      refine effect_of_unary ?_ ?_ (fun _ _ => ⟨rfl, rfl⟩) hrun
      · rw [hopcode]
        rfl
      · rw [hopcode]
        nofun
  | jmp | je | jnz | jg | jge | jl | jle | jc | jnc =>
      rw [hopcode] at hrun
      refine effect_of_branch ?_ hrun
      rw [hopcode]
      rfl
  | call =>
      rw [hopcode] at hrun
      exact effect_of_call hopcode hrun
  | ret =>
      rw [hopcode] at hrun
      exact effect_of_ret hopcode hrun
  | sys =>
      rw [hopcode] at hrun
      exact effect_of_sys hopcode hrunning hrun
  | nop =>
      rw [hopcode] at hrun
      obtain ⟨rfl, hwork⟩ := exists_of_run_thenNext hrun
      cases hwork
      exact .idled hopcode
  | hlt =>
      rw [hopcode] at hrun
      obtain ⟨_, between, hmodify, hstay⟩ := exists_of_run_bind_ok hrun
      cases hmodify
      cases hstay
      exact .halted hopcode

end Machine
end WordMachine
