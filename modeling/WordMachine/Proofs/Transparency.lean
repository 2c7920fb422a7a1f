import WordMachine.Engine.Dispatch
import WordMachine.Proofs.FailingSteps

/-!
# The debugger is transparent

Whatever is done to a session, as long as nothing rewinds or reloads it, its
machine is the one that steps alone lead to from the loaded program, as many of
them as the session has counted.  Pauses, limits, breakpoints, watchpoints,
states and failures leave no mark on it.
-/

namespace WordMachine

namespace Session

/-- The second session comes from the first by operations that neither load, reset nor step
back.  A host may do any of them while it looks at a run.  Disassembling a session is not
among them, since it gives no new session. -/
inductive Forward : Session → Session → Prop
  | refl (session : Session) : Forward session session
  | trans {first second third : Session} :
      Forward first second → Forward second third → Forward first third
  | step (session : Session) : Forward session session.step.2
  | run {ε : Type} {host : RunHost ε} (session : Session)
      (cursor : Option Word) (limit : Option Nat) :
      (∀ look seen, Forward seen (host.observe look seen).2) →
        Forward session (session.run cursor limit host).session
  | setBreakpoints (session : Session) (breakpoints : Breakpoints) :
      Forward session (session.setBreakpoints breakpoints)
  | setWatchpoints (session : Session) (watchpoints : Watchpoints) :
      Forward session (session.setWatchpoints watchpoints)
  | state (session : Session) : Forward session session.state.2
  | failingAssemble {session session' : Session} {source : Text} {stop : Stop} :
      session.assemble source = (.error stop, session') → Forward session session'
  | failingStepBack {session session' : Session} {error : SessionError} :
      session.stepBack = (.error error, session') → Forward session session'

/-! ## What goes forward keeps -/

/-- The session runs a program with the usual host, and its machine is the one that its
steps alone lead to. -/
structure Replays (program : Program) (session : Session) : Prop where
  usual : session.calls = .standard
  loaded : session.program = some program
  replay :
    (Machine.steps .standard program session.steps).run (Machine.ofProgram program) =
      .ok () session.machine

variable {program : Program} {session session' : Session}

theorem replays_load
    (hcalls : session.calls = .standard) :
    Replays program (session.load program) where
  usual := hcalls
  loaded := rfl
  replay := rfl

theorem Replays.of_eq
    (hreplays : Replays program session)
    (hcalls : session'.calls = .standard) (hprogram : session'.program = session.program)
    (hmachine : session'.machine = session.machine) (hsteps : session'.steps = session.steps) :
    Replays program session' where
  usual := hcalls
  loaded := hprogram.trans hreplays.loaded
  replay := by
    rw [hmachine, hsteps]
    exact hreplays.replay

/-- The usual host has no state, so it is the same after a step. -/
theorem Replays.usual_later (hreplays : Replays program session) :
    session.calls.later = .standard := by
  rw [hreplays.usual]
  rfl

theorem Replays.replay_succ {machine : Machine}
    (hreplays : Replays program session)
    (hstep : (Machine.step .standard program).run session.machine = .ok () machine) :
    (Machine.steps .standard program (session.steps + 1)).run (Machine.ofProgram program) =
      .ok () machine := by
  rw [Machine.steps, EStateM.run_bind, hreplays.replay]
  exact hstep

theorem Replays.step (hreplays : Replays program session) : Replays program session.step.2 := by
  rcases step_cases hreplays.loaded with
    ⟨-, hhalted⟩ | ⟨machine, hok, haccepted⟩ | ⟨failure, machine, herror, hfailed⟩
  · rw [hhalted]
    exact hreplays.of_eq hreplays.usual rfl rfl rfl
  · rw [haccepted]
    rw [hreplays.usual] at hok
    exact ⟨hreplays.usual_later, hreplays.loaded, hreplays.replay_succ hok⟩
  · rw [hfailed]
    -- a failing step counts nothing, so it must not have moved the machine either
    rw [hreplays.usual] at herror
    have hspares : Execution.Spares (fun _ => True) (Machine.step .standard program) :=
      Machine.step_spares program SystemCalls.standard_spares
    have hspared := hspares session.machine failure machine trivial herror
    exact hreplays.of_eq hreplays.usual_later rfl hspared rfl

theorem stepBack_eq_of_error {error : SessionError}
    (hback : session.stepBack = (.error error, session')) :
    ∃ trace, session' = { session with trace } := by
  unfold stepBack at hback
  split at hback
  · cases hback
    exact ⟨session.trace, rfl⟩
  · split at hback
    · cases hback
      exact ⟨session.trace, rfl⟩
    · split at hback
      · cases hback
        exact ⟨_, rfl⟩
      · cases hback

theorem assemble_eq_of_error {source : Text} {stop : Stop}
    (hassemble : session.assemble source = (.error stop, session')) : session' = session := by
  cases hresult : WordMachine.assemble source with
  | ok program =>
      rw [session.assemble_of_ok hresult] at hassemble
      cases hassemble
  | error failure =>
      obtain ⟨found, hfound⟩ := session.assemble_of_error hresult
      rw [hfound] at hassemble
      cases hassemble
      rfl

theorem Forward.replays
    (hforward : Forward session session') (hreplays : Replays program session) :
    Replays program session' := by
  induction hforward with
  | refl session => exact hreplays
  | trans _ _ ihfirst ihsecond => exact ihsecond (ihfirst hreplays)
  | step session => exact hreplays.step
  | run session cursor limit _ ih =>
      exact run_induction (fun _ _ h => h.of_eq h.usual rfl rfl rfl) (fun _ h => h.step)
        ih cursor limit hreplays
  | setBreakpoints session breakpoints => exact hreplays.of_eq hreplays.usual rfl rfl rfl
  | setWatchpoints session watchpoints => exact hreplays.of_eq hreplays.usual rfl rfl rfl
  | state session => exact hreplays.of_eq hreplays.usual rfl rfl rfl
  | failingAssemble hassemble =>
      rw [assemble_eq_of_error hassemble]
      exact hreplays
  | failingStepBack hback =>
      obtain ⟨trace, hsession⟩ := stepBack_eq_of_error hback
      rw [hsession]
      exact hreplays.of_eq hreplays.usual rfl rfl rfl

/-! ## Commands -/

/-- Whether a command neither loads a program, resets the session nor steps it back. -/
def GoesForward (session : Session) : Command → Prop
  | .assembleRun source | .assembleStep source =>
      ∃ stop, session.assemble source = (.error stop, session)
  | .stepBack => ∃ error session', session.stepBack = (.error error, session')
  | .reset => False
  | .step | .resume _ | .resumeToCursor .. | .setBreakpoints _ | .setWatchpoints _
  | .getDisassembly => True

theorem forward_answer
    (hforward : Forward session session') (response : SessionState → Response) :
    Forward session (session'.answer response).2 :=
  hforward.trans (.state session')

theorem forward_answerError
    (hforward : Forward session session') (diagnostic : Diagnostic) :
    Forward session (session'.answerError diagnostic).2 := by
  unfold answerError
  split
  · exact forward_answer hforward _
  · exact hforward

theorem forward_answerStop
    (hforward : Forward session session') (stop : Stop) :
    Forward session (session'.answerStop stop).2 := by
  cases stop with
  | failed diagnostic => exact forward_answerError hforward diagnostic
  | broken message => exact hforward

theorem forward_answerRun
    (hforward : Forward session session') (outcome : Except Stop PauseReason) :
    Forward session (session'.answerRun outcome).2 := by
  cases outcome with
  | ok reason => exact forward_answer hforward _
  | error stop => exact forward_answerStop hforward stop

/-- What an undertaking comes to once its run, if it opens one, is carried out. -/
def LeadsForward (session : Session) : Undertaking × Session → Prop
  | (.answered _, session') => Forward session session'
  | (.running run, session') =>
      ∀ cancelled,
        Forward session
          (session'.runFrom { cancelled, observe := fun _ => Session.state } run.plan
            run.remaining run.resuming []).session

theorem leadsForward_undertakeRun
    (session : Session) (cursor : Option Word) (limit : Option Nat) :
    session.LeadsForward (session.undertakeRun cursor limit) := by
  have hrun : ∀ cancelled, Forward session
      (session.run cursor limit { cancelled, observe := fun _ => Session.state }).session :=
    fun _ => .run session cursor limit fun _ seen => .state seen
  unfold undertakeRun
  unfold Session.run at hrun
  split
  next run session' hopen =>
    rw [hopen] at hrun
    exact hrun
  · exact forward_answerError (.refl session) _

theorem leadsForward_undertake
    (command : Command) (hcommand : session.GoesForward command) :
    session.LeadsForward (session.undertake command) := by
  have hstep := Forward.step session
  unfold undertake
  cases command with
  | assembleRun source | assembleStep source =>
      obtain ⟨diagnostic, hassemble⟩ := hcommand
      dsimp only
      rw [hassemble]
      exact .refl session
  | step =>
      dsimp only
      split
      next hanswer =>
        rw [hanswer] at hstep
        exact forward_answer hstep _
      next hanswer =>
        rw [hanswer] at hstep
        exact forward_answerStop hstep _
  | reset => exact hcommand.elim
  | resume limit => exact leadsForward_undertakeRun session none limit
  | resumeToCursor address limit => exact leadsForward_undertakeRun session (some address) limit
  | setBreakpoints breakpoints => exact forward_answer (.setBreakpoints session _) _
  | setWatchpoints watchpoints => exact forward_answer (.setWatchpoints session _) _
  | stepBack =>
      obtain ⟨error, session', hback⟩ := hcommand
      dsimp only
      rw [hback]
      exact forward_answerError (.failingStepBack hback) _
  | getDisassembly =>
      dsimp only
      split
      · exact .refl session
      · exact .refl session

/-- Every command goes forward that does not rewind or reload. -/
theorem forward_dispatch
    (cancelled : Nat → Bool) (command : Command) (hcommand : session.GoesForward command) :
    Forward session (session.dispatch cancelled command).session := by
  have hleads := leadsForward_undertake command hcommand
  unfold dispatch
  split
  next hundertake =>
    rw [hundertake] at hleads
    exact hleads
  next hundertake =>
    rw [hundertake] at hleads
    exact forward_answerRun (hleads cancelled) _

end Session

/-- The machine of a session depends on its program and the number of its steps alone,
however it has come to them. -/
theorem machine_eq_replay_of_forward
    (program : Program) (earlier session : Session)
    (hcalls : earlier.calls = .standard)
    (hforward : (earlier.load program).Forward session) :
    (Machine.steps .standard program session.steps).run (Machine.ofProgram program) =
        .ok () session.machine ∧
      ∀ earlier' session' : Session,
        earlier'.calls = .standard → (earlier'.load program).Forward session' →
        session'.steps = session.steps → session'.machine = session.machine := by
  have hreplays := hforward.replays (Session.replays_load hcalls)
  refine ⟨hreplays.replay, ?_⟩
  intro earlier' session' hcalls' hforward' hsteps
  have hreplay' := (hforward'.replays (Session.replays_load hcalls')).replay
  rw [hsteps, hreplays.replay] at hreplay'
  injection hreplay' with _ hmachine
  exact hmachine.symm

def Program.counting : Program where
  instructions :=
    #[{ opcode := .inc, operands := [.register .basePointer],
        line := 1, column := 1, source := "INC BP".toList, address := 0 },
      { opcode := .dec, operands := [.register .basePointer],
        line := 2, column := 1, source := "DEC BP".toList, address := 1 }]
  symbols := {}
  data := #[]
  textStart := 0
  dataStart := 0

/-- Two steps, and a run that is cancelled at its second look. -/
theorem machine_eq_replay_of_forward_counting :
    let start := Session.start { yieldInterval := 1 } .standard
    let loaded := start.load .counting
    let host : RunHost SessionState :=
      { cancelled := fun look => look == 1, observe := fun _ => Session.state }
    let stepped := loaded.step.2.step.2
    let ran := (loaded.run none (some 9) host).session
    (stepped.steps = 2 ∧ ran.steps = 2) ∧ stepped.machine = ran.machine := by
  intro start loaded host stepped ran
  have hstepped : loaded.Forward stepped := .trans (.step loaded) (.step loaded.step.2)
  have hran : loaded.Forward ran := .run loaded none (some 9) fun _ seen => .state seen
  refine ⟨⟨rfl, by decide +kernel⟩, ?_⟩
  exact (machine_eq_replay_of_forward .counting start ran rfl hran).2 start stepped rfl
    hstepped (by decide +kernel)

end WordMachine
