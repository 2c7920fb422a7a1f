import WordMachine.Debug.Session

/-!
# Failing steps change nothing

An instruction checks and changes the machine in an order of its own, and a
failure keeps whatever has been changed before it.  The main result says that
nothing ever has been: a step that fails leaves the machine, and the session
around it, exactly as they were, and blames the instruction that the session
still points at.

The argument is about the order alone.  Work that only looks may be followed by
anything that spares the state, and work that spares it may be followed by
anything that cannot fail.
-/

namespace WordMachine

/-! ## Looking, sparing and not failing -/

namespace Execution

variable {σ α β : Type} {kind : Failure → Prop}

/-- Where the work fails with a failure of this kind, the state is as it was. -/
def Spares (kind : Failure → Prop) (work : EStateM Failure σ α) : Prop :=
  ∀ state failure state', kind failure →
    work.run state = .error failure state' → state' = state

/-- The work leaves the state alone, whether it succeeds or fails. -/
def OnlyLooks (work : EStateM Failure σ α) : Prop :=
  ∀ state,
    (∃ value, work.run state = .ok value state) ∨
      ∃ failure, work.run state = .error failure state

/-- The work succeeds in every state. -/
def NeverFails (work : EStateM Failure σ α) : Prop :=
  ∀ state, ∃ value state', work.run state = .ok value state'

theorem OnlyLooks.spares
    {work : EStateM Failure σ α} (hlooks : OnlyLooks work) :
    Spares kind work := by
  intro state failure state' _ herror
  rcases hlooks state with ⟨value, hok⟩ | ⟨failure', herror'⟩
  · rw [hok] at herror
    cases herror
  · rw [herror'] at herror
    cases herror
    rfl

theorem NeverFails.spares
    {work : EStateM Failure σ α} (hnever : NeverFails work) :
    Spares kind work := by
  intro state failure state' _ herror
  obtain ⟨value, next, hok⟩ := hnever state
  rw [hok] at herror
  cases herror

/-- After looking, everything is still as it was. -/
theorem OnlyLooks.bind_spares
    {work : EStateM Failure σ α} {rest : α → EStateM Failure σ β}
    (hlooks : OnlyLooks work) (hrest : ∀ value, Spares kind (rest value)) :
    Spares kind (work >>= rest) := by
  intro state failure state' hkind herror
  rw [EStateM.run_bind] at herror
  rcases hlooks state with ⟨value, hok⟩ | ⟨failure', herror'⟩
  · rw [hok] at herror
    exact hrest value state failure state' hkind herror
  · rw [herror'] at herror
    cases herror
    rfl

/-- What has been changed is kept if nothing after it can fail. -/
theorem Spares.bind_neverFails
    {work : EStateM Failure σ α} {rest : α → EStateM Failure σ β}
    (hspares : Spares kind work) (hrest : ∀ value, NeverFails (rest value)) :
    Spares kind (work >>= rest) := by
  intro state failure state' hkind herror
  rw [EStateM.run_bind] at herror
  cases hrun : work.run state with
  | ok value next =>
      obtain ⟨result, final, hok⟩ := hrest value next
      rw [hrun] at herror
      simp only [hok] at herror
      cases herror
  | error failure' next =>
      rw [hrun] at herror
      cases herror
      exact hspares state failure state' hkind hrun

theorem OnlyLooks.bind
    {work : EStateM Failure σ α} {rest : α → EStateM Failure σ β}
    (hlooks : OnlyLooks work) (hrest : ∀ value, OnlyLooks (rest value)) :
    OnlyLooks (work >>= rest) := by
  intro state
  rw [EStateM.run_bind]
  rcases hlooks state with ⟨value, hok⟩ | ⟨failure, herror⟩
  · rw [hok]
    exact hrest value state
  · rw [herror]
    exact .inr ⟨failure, rfl⟩

theorem NeverFails.bind
    {work : EStateM Failure σ α} {rest : α → EStateM Failure σ β}
    (hwork : NeverFails work) (hrest : ∀ value, NeverFails (rest value)) :
    NeverFails (work >>= rest) := by
  intro state
  obtain ⟨value, next, hok⟩ := hwork state
  rw [EStateM.run_bind, hok]
  exact hrest value next

theorem onlyLooks_get : OnlyLooks (get : EStateM Failure σ σ) :=
  fun state => .inl ⟨state, rfl⟩

theorem onlyLooks_throw (failure : Failure) :
    OnlyLooks (throw failure : EStateM Failure σ α) :=
  fun _ => .inr ⟨failure, rfl⟩

theorem onlyLooks_liftExcept (result : Except Failure α) :
    OnlyLooks (liftExcept result : EStateM Failure σ α) := by
  cases result with
  | ok value => exact fun _ => .inl ⟨value, rfl⟩
  | error failure => exact onlyLooks_throw failure

theorem neverFails_pure (value : α) :
    NeverFails (pure value : EStateM Failure σ α) :=
  fun state => ⟨value, state, rfl⟩

theorem neverFails_get : NeverFails (get : EStateM Failure σ σ) :=
  fun state => ⟨state, state, rfl⟩

theorem neverFails_modify (change : σ → σ) :
    NeverFails (modify change : EStateM Failure σ PUnit) :=
  fun state => ⟨⟨⟩, change state, rfl⟩

theorem onlyLooks_read (look : Machine → Except Failure α) :
    OnlyLooks (read look) :=
  onlyLooks_get.bind fun machine => onlyLooks_liftExcept (look machine)

theorem neverFails_modifyCpu (change : Cpu → Cpu) :
    NeverFails (modifyCpu change) :=
  neverFails_modify _

/-- Work that fails has failed in its first part or after it. -/
theorem error_of_run_bind
    {work : EStateM Failure σ α} {rest : α → EStateM Failure σ β} {state state' : σ}
    {failure : Failure} (herror : (work >>= rest).run state = .error failure state') :
    work.run state = .error failure state' ∨
      ∃ value between,
        work.run state = .ok value between ∧
          (rest value).run between = .error failure state' := by
  rw [EStateM.run_bind] at herror
  cases hrun : work.run state with
  | ok value between =>
      rw [hrun] at herror
      exact .inr ⟨value, between, rfl, herror⟩
  | error failure' between =>
      rw [hrun] at herror
      cases herror
      exact .inl rfl

/-- Work on memory fails as it would on memory alone. -/
theorem error_of_run_onMemory
    {work : EStateM Failure Memory α} {machine machine' : Machine} {failure : Failure}
    (herror : (onMemory work).run machine = .error failure machine') :
    ∃ memory,
      work.run machine.memory = .error failure memory ∧ machine' = { machine with memory } := by
  simp only [EStateM.run, onMemory] at herror
  cases hrun : work machine.memory with
  | ok value memory =>
      rw [hrun] at herror
      cases herror
  | error failure' memory =>
      rw [hrun] at herror
      cases herror
      exact ⟨memory, hrun, rfl⟩

theorem error_of_run_onHostView
    {work : Memory → EStateM Failure HostView α} {machine machine' : Machine} {failure : Failure}
    (herror : (onHostView work).run machine = .error failure machine') :
    ∃ view,
      (work machine.memory).run { cpu := machine.cpu, console := machine.console } =
          .error failure view ∧
        machine' = { machine with cpu := view.cpu, console := view.console } := by
  simp only [EStateM.run, onHostView] at herror
  cases hrun : work machine.memory { cpu := machine.cpu, console := machine.console } with
  | ok value view =>
      rw [hrun] at herror
      cases herror
  | error failure' view =>
      rw [hrun] at herror
      cases herror
      exact ⟨view, hrun, rfl⟩

theorem Spares.onMemory
    {work : EStateM Failure Memory α} (hspares : Spares kind work) :
    Spares kind (onMemory work) := by
  intro machine failure machine' hkind herror
  obtain ⟨memory, hrun, rfl⟩ := error_of_run_onMemory herror
  rw [hspares machine.memory failure memory hkind hrun]

theorem Spares.onHostView
    {work : Memory → EStateM Failure HostView α}
    (hspares : ∀ memory, Spares kind (work memory)) :
    Spares kind (onHostView work) := by
  intro machine failure machine' hkind herror
  obtain ⟨view, hrun, rfl⟩ := error_of_run_onHostView herror
  rw [hspares machine.memory _ failure view hkind hrun]

end Execution

/-! ## Every instruction spares the machine -/

open Execution

variable {kind : Failure → Prop}

/-- A host that has changed nothing when it fails in this way. -/
def SystemCalls.Spares (kind : Failure → Prop) (calls : SystemCalls) : Prop :=
  ∀ number memory, Execution.Spares kind (calls number memory)

theorem SystemCalls.standard_spares : SystemCalls.standard.Spares kind := by
  intro number memory
  unfold SystemCalls.standard
  split
  case h_6 => exact (onlyLooks_throw _).spares
  all_goals exact (neverFails_modify _).spares

/-- A host that never changes anything before it fails in this way. -/
def Handler.Spares (kind : Failure → Prop) (handler : Handler) : Prop :=
  ∀ step, (handler step).Spares kind

theorem Handler.Spares.later {handler : Handler} (hspares : handler.Spares kind) :
    handler.later.Spares kind :=
  fun step => hspares (step + 1)

theorem Handler.standard_spares : Handler.standard.Spares kind :=
  fun _ => SystemCalls.standard_spares

theorem Memory.writeWord_spares (address : Int) (value : Word) :
    Spares kind (Memory.writeWord address value) :=
  (onlyLooks_liftExcept _).bind_spares fun _ => (neverFails_modify _).spares

namespace Machine

variable (program : Program) (instruction : Instruction)

theorem write_spares (outcome : Outcome) : Spares kind (write instruction outcome) :=
  (onlyLooks_read _).bind_spares fun _ => (neverFails_modifyCpu _).spares

theorem push_spares (value : Word) : Spares kind (push program value) := by
  refine onlyLooks_get.bind_spares fun machine => ?_
  dsimp only
  split
  · exact (onlyLooks_throw _).spares
  -- the word is stored first, and moving the stack pointer after it cannot fail
  · exact (Memory.writeWord_spares _ _).onMemory.bind_neverFails
      fun _ => neverFails_modifyCpu _

theorem pop_spares : Spares kind pop :=
  (onlyLooks_read _).bind_spares fun _ =>
    ((neverFails_modifyCpu _).bind fun _ => neverFails_pure _).spares

theorem popInto_spares : Spares kind (popInto instruction) :=
  (onlyLooks_read _).bind_spares fun _ =>
    pop_spares.bind_neverFails fun _ => neverFails_modifyCpu _

theorem call_spares : Spares kind (call program instruction) :=
  (onlyLooks_read _).bind_spares fun _ =>
    onlyLooks_get.bind_spares fun _ =>
      (push_spares program _).bind_neverFails fun _ => neverFails_pure _

theorem ret_spares : Spares kind (ret program) := by
  refine (onlyLooks_read _).bind_spares fun target => ?_
  -- the return address is checked while it is still on the stack
  split
  · exact pop_spares.bind_neverFails fun _ => neverFails_pure _
  · exact (onlyLooks_throw _).spares

theorem systemCall_spares {calls : SystemCalls} (hcalls : calls.Spares kind) (number : Word) :
    Spares kind (systemCall calls number) :=
  (Spares.onHostView (hcalls number)).bind_neverFails fun _ =>
    neverFails_get.bind fun _ => neverFails_pure _

theorem branch_spares : Spares kind (branch program instruction) := by
  refine onlyLooks_get.bind_spares fun machine => ?_
  split
  · exact (onlyLooks_read _).bind_spares fun _ => (neverFails_pure _).spares
  · exact (neverFails_pure _).spares

theorem compute_onlyLooks (operation : Word → Word → Except Fault Outcome) :
    OnlyLooks (compute program instruction operation) :=
  (onlyLooks_read _).bind fun _ => (onlyLooks_read _).bind fun _ => onlyLooks_liftExcept _

theorem binary_spares (operation : Word → Word → Except Fault Outcome) :
    Spares kind (binary program instruction operation) :=
  (compute_onlyLooks program instruction operation).bind_spares fun _ =>
    write_spares instruction _

theorem unary_spares (operation : Word → Outcome) :
    Spares kind (unary instruction operation) :=
  (onlyLooks_read _).bind_spares fun _ => write_spares instruction _

theorem compare_spares : Spares kind (compare program instruction) :=
  (compute_onlyLooks program instruction _).bind_spares fun _ =>
    (neverFails_modifyCpu _).spares

theorem move_spares : Spares kind (move program instruction) :=
  (onlyLooks_read _).bind_spares fun _ => write_spares instruction _

theorem load_spares : Spares kind (load program instruction) :=
  (onlyLooks_read _).bind_spares fun _ =>
    (onlyLooks_read _).bind_spares fun _ => write_spares instruction _

theorem store_spares : Spares kind (store program instruction) :=
  (onlyLooks_read _).bind_spares fun _ =>
    (onlyLooks_read _).bind_spares fun _ => (Memory.writeWord_spares _ _).onMemory

theorem thenNext_spares {work : Execution Unit} (hwork : Spares kind work) :
    Spares kind (thenNext work) :=
  hwork.bind_neverFails fun _ => neverFails_pure _

theorem execute_spares {calls : SystemCalls} (hcalls : calls.Spares kind) :
    Spares kind (execute calls program instruction) := by
  unfold execute
  cases instruction.opcode with
  | mov => exact thenNext_spares (move_spares program instruction)
  | load => exact thenNext_spares (load_spares program instruction)
  | store => exact thenNext_spares (store_spares program instruction)
  | push =>
      exact thenNext_spares
        ((onlyLooks_read _).bind_spares fun _ => push_spares program _)
  | pop => exact thenNext_spares (popInto_spares instruction)
  | cmp => exact thenNext_spares (compare_spares program instruction)
  | add | sub | mul | div | mod | and | or | xor | shl | shr =>
      exact thenNext_spares (binary_spares program instruction _)
  | inc | dec | neg | not => exact thenNext_spares (unary_spares instruction _)
  | jmp | je | jnz | jg | jge | jl | jle | jc | jnc => exact branch_spares program instruction
  | call => exact call_spares program instruction
  | ret => exact ret_spares program
  | sys => exact (onlyLooks_read _).bind_spares fun _ => systemCall_spares hcalls _
  | nop => exact thenNext_spares (neverFails_pure _).spares
  | hlt => exact ((neverFails_modify _).bind fun _ => neverFails_pure _).spares

theorem step_spares {calls : SystemCalls} (hcalls : calls.Spares kind) :
    Spares kind (step calls program) := by
  refine onlyLooks_get.bind_spares fun machine => ?_
  split
  · exact (neverFails_pure _).spares
  · split
    · exact (neverFails_modify _).spares
    next instruction _ =>
      exact (execute_spares program instruction hcalls).bind_neverFails fun _ =>
        neverFails_modifyCpu _

theorem exists_instruction_of_step_error {calls : SystemCalls} {machine machine' : Machine}
    {failure : Failure}
    (hstep : (step calls program).run machine = .error failure machine') :
    ∃ instruction,
      program.instructionAt? machine.cpu.instructionPointer = some instruction := by
  simp only [step, EStateM.run_bind, EStateM.run_get] at hstep
  split at hstep
  · cases hstep
  · split at hstep
    · cases hstep
    next instruction hinstruction => exact ⟨instruction, hinstruction⟩

/-! ## Memory is spared whatever the host does -/

variable {calls : SystemCalls} {machine machine' : Machine} {failure : Failure}

theorem execute_of_ne_sys
    (calls other : SystemCalls) (hopcode : instruction.opcode ≠ .sys) :
    execute calls program instruction = execute other program instruction := by
  unfold execute
  cases hcase : instruction.opcode with
  | sys => exact absurd hcase hopcode
  | _ => rfl

theorem memory_of_systemCall_error {number : Word}
    (hcall : (systemCall calls number).run machine = .error failure machine') :
    machine'.memory = machine.memory := by
  rcases error_of_run_bind hcall with hcall | ⟨_, between, -, hrest⟩
  · obtain ⟨view, -, rfl⟩ := error_of_run_onHostView hcall
    rfl
  · cases hrest

theorem memory_of_execute_error
    (hexecute : (execute calls program instruction).run machine = .error failure machine') :
    machine'.memory = machine.memory := by
  by_cases hopcode : instruction.opcode = .sys
  · -- the only instruction that leaves the machine to its host, which cannot write memory
    have hsystem : execute calls program instruction =
        read (value program instruction 0) >>= systemCall calls := by
      rw [execute, hopcode]
    rw [hsystem, EStateM.run_bind] at hexecute
    rcases onlyLooks_read (value program instruction 0) machine with
      ⟨number, hok⟩ | ⟨refusal, herror⟩
    · rw [hok] at hexecute
      exact memory_of_systemCall_error hexecute
    · rw [herror] at hexecute
      cases hexecute
      rfl
  · rw [execute_of_ne_sys program instruction calls .standard hopcode] at hexecute
    have hspares : Spares (fun _ => True) (execute .standard program instruction) :=
      execute_spares program instruction SystemCalls.standard_spares
    rw [hspares machine failure machine' trivial hexecute]

theorem memory_of_step_error
    (hstep : (step calls program).run machine = .error failure machine') :
    machine'.memory = machine.memory := by
  by_cases hhalted : machine.cpu.halted = true
  · rw [step_of_halted hhalted] at hstep
    cases hstep
  · have hrunning : machine.cpu.halted = false := Bool.eq_false_iff.mpr hhalted
    obtain ⟨instruction, hinstruction⟩ := exists_instruction_of_step_error program hstep
    rw [step_of_instruction hrunning hinstruction] at hstep
    cases hexecute : (execute calls program instruction).run machine with
    | ok flow after =>
        rw [hexecute] at hstep
        cases hstep
    | error refusal after =>
        rw [hexecute] at hstep
        cases hstep
        exact memory_of_execute_error program instruction hexecute

end Machine

/-! ## The session around it -/

/-- A failure that is reported, as opposed to a breakdown. -/
def Failure.IsFault : Failure → Prop
  | .fault _ => True
  | .breakdown _ => False

namespace Session

theorem machine_error_of_step_failed
    {session session' : Session} {program : Program} {diagnostic : Diagnostic}
    (hprogram : session.program = some program)
    (hstep : session.step = (.error (.failed diagnostic), session')) :
    ∃ failure machine',
      (Machine.step session.calls.now program).run session.machine =
          .error failure machine' ∧
        blame program session.machine.cpu failure = .failed diagnostic ∧
        session' =
          { session with
            resumeFrom := none, calls := session.calls.later, machine := machine' } := by
  rcases step_cases hprogram with ⟨_, hok⟩ | ⟨machine', _, hok⟩ | ⟨failure, machine', hrun, herror⟩
  · rw [hok] at hstep
    cases hstep
  · rw [hok] at hstep
    cases hstep
  · rw [herror] at hstep
    simp only [Prod.mk.injEq, Except.error.injEq] at hstep
    exact ⟨failure, machine', hrun, hstep.1, hstep.2.symm⟩

theorem exists_fault_of_blame
    {program : Program} {cpu : Cpu} {failure : Failure} {diagnostic : Diagnostic}
    {instruction : Instruction}
    (hinstruction : program.instructionAt? cpu.instructionPointer = some instruction)
    (hblame : blame program cpu failure = .failed diagnostic) :
    ∃ fault,
      failure = .fault fault ∧
        diagnostic = fault.diagnostic instruction.line instruction.column := by
  cases failure with
  | breakdown message => cases hblame
  | fault fault =>
      simp only [blame, hinstruction, Stop.failed.injEq] at hblame
      exact ⟨fault, rfl, hblame.symm⟩

end Session

/-- A step that fails leaves the machine as it was, with the usual host and with every
other host that changes nothing before it refuses a call.  It leaves the session as it was
too, but for the mark of the last pause and the state of the host itself, and blames the
instruction at the pointer. -/
theorem failing_step_changes_nothing :
    SystemCalls.standard.Spares Failure.IsFault ∧
      ∀ calls : SystemCalls, calls.Spares Failure.IsFault →
        (∀ (program : Program) (machine machine' : Machine) (fault : Fault),
          (Machine.step calls program).run machine = .error (.fault fault) machine' →
            machine' = machine) ∧
        ∀ (session session' : Session) (program : Program) (diagnostic : Diagnostic),
          session.calls.now = calls → session.program = some program →
          session.step = (.error (.failed diagnostic), session') →
            session' = { session with resumeFrom := none, calls := session.calls.later } ∧
            ∃ (instruction : Instruction) (fault : Fault),
              program.instructionAt? session'.machine.cpu.instructionPointer =
                  some instruction ∧
                diagnostic = fault.diagnostic instruction.line instruction.column := by
  refine ⟨SystemCalls.standard_spares, fun calls hcalls => ⟨?_, ?_⟩⟩
  · intro program machine machine' fault herror
    exact Machine.step_spares program hcalls machine (.fault fault) machine' trivial herror
  · rintro session session' program diagnostic rfl hprogram hstep
    obtain ⟨failure, machine', hrun, hblame, hsession⟩ :=
      Session.machine_error_of_step_failed hprogram hstep
    obtain ⟨instruction, hinstruction⟩ :=
      Machine.exists_instruction_of_step_error program hrun
    obtain ⟨fault, hfault, hdiagnostic⟩ :=
      Session.exists_fault_of_blame hinstruction hblame
    subst failure
    have hmachine : machine' = session.machine :=
      Machine.step_spares program hcalls session.machine (.fault fault) machine' trivial hrun
    subst machine' session'
    exact ⟨rfl, instruction, fault, hinstruction, hdiagnostic⟩

def Program.division : Program where
  instructions :=
    #[{ opcode := .div, operands := [.register .stackPointer, .register .basePointer],
        line := 3, column := 5, source := "DIV SP, BP".toList, address := 0 }]
  symbols := {}
  data := #[]
  textStart := 0
  dataStart := 0

theorem failing_step_changes_nothing_division :
    let machine := Machine.ofProgram .division
    let session := (Session.start {} .standard).load .division
    (∃ machine',
      (Machine.step .standard .division).run machine =
          .error (.fault .divisionByZero) machine' ∧
        machine' = machine) ∧
      ∃ diagnostic session',
        session.step = (.error (.failed diagnostic), session') ∧
          session' = { session with resumeFrom := none } ∧
          (diagnostic.line, diagnostic.column) = (3, 5) := by
  intro machine session
  obtain ⟨hstandard, hall⟩ := failing_step_changes_nothing
  obtain ⟨hmachine, hsession⟩ := hall .standard hstandard
  refine ⟨⟨machine, rfl, hmachine .division machine machine .divisionByZero rfl⟩,
    Fault.divisionByZero.diagnostic 3 5, _, rfl, ?_, rfl⟩
  exact (hsession session _ .division (Fault.divisionByZero.diagnostic 3 5) rfl rfl rfl).1

end WordMachine
