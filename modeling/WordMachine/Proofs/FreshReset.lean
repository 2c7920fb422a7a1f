import WordMachine.Engine.Dispatch
import WordMachine.Proofs.SessionHistory
import WordMachine.Proofs.WatchHits

/-!
# A reset is a fresh load

A reset puts back one piece of a session after another.  What it leaves alone are
the settings, the host, the program and what watches it, and of the trace only
how much it holds; that no deed changes.  So after a reset nothing of the history
is left, and the session is the one that a fresh load of its program gives.
-/

namespace WordMachine

namespace Session

/-- A new session with the program loaded, and then watched in the same way. -/
def freshly (settings : Settings) (calls : Handler) (program : Program)
    (breakpoints : Breakpoints) (watchpoints : Watchpoints) : Session :=
  (((start settings calls).load program).setBreakpoints breakpoints).setWatchpoints watchpoints

/-- What comes of requests that are carried out one after the other. -/
def exchangeAll (session : Session) : List ((Nat → Bool) × Command) → List Dispatched
  | [] => []
  | (cancelled, command) :: requests =>
      let dispatched := session.dispatch cancelled command
      dispatched :: dispatched.session.exchangeAll requests

variable {settings : Settings} {session : Session} {program : Program}

/-! ## What no deed changes -/

/-- The session has these settings, and the trace that they ask for, filled or not. -/
structure Configured (settings : Settings) (session : Session) : Prop where
  settings_eq : session.settings = settings
  clear_trace : session.trace.map Trace.clear = (start settings session.calls).trace

theorem configured_start (settings : Settings) (calls : Handler) :
    (start settings calls).Configured settings where
  settings_eq := rfl
  clear_trace := by
    dsimp only [start]
    split
    · rfl
    · rfl

theorem Configured.of_clear {session' : Session} (hconfigured : session.Configured settings)
    (hsettings : session'.settings = session.settings)
    (hclear : session'.trace.map Trace.clear = session.trace.map Trace.clear) :
    session'.Configured settings where
  settings_eq := hsettings.trans hconfigured.settings_eq
  clear_trace := hclear.trans hconfigured.clear_trace

theorem clear_freshTrace (program : Option Program) (cpu : Cpu) (trace : Trace) :
    (freshTrace program cpu trace).clear = trace.clear := by
  cases program with
  | none => rfl
  | some program => rfl

theorem Configured.reset (hconfigured : session.Configured settings) :
    session.reset.Configured settings := by
  refine hconfigured.of_clear rfl ?_
  dsimp only [Session.reset]
  rw [Option.map_map]
  exact Option.map_congr fun trace _ => clear_freshTrace _ _ trace

theorem Configured.step (hconfigured : session.Configured settings) :
    session.step.2.Configured settings := by
  cases hprogram : session.program with
  | none =>
      rw [Session.step, hprogram]
      exact hconfigured
  | some program =>
      rcases step_cases hprogram with
        ⟨-, hstep⟩ | ⟨machine, -, hstep⟩ | ⟨failure, machine, -, hstep⟩
      · rw [hstep]
        exact hconfigured.of_clear rfl rfl
      · rw [hstep]
        refine hconfigured.of_clear rfl ?_
        dsimp only [accept]
        rw [Option.map_map]
        rfl
      · rw [hstep]
        exact hconfigured.of_clear rfl rfl

theorem Configured.stepBack (hconfigured : session.Configured settings) :
    session.stepBack.2.Configured settings := by
  have hback : ∀ trace : Trace, trace.back.2.clear = trace.clear := by
    intro trace
    unfold Trace.back
    split
    · rfl
    · rfl
  unfold Session.stepBack
  split
  · exact hconfigured
  · split
    · exact hconfigured
    next trace htrace =>
      have hclear := hback trace
      split
      next earlier hanswer =>
        rw [hanswer] at hclear
        refine hconfigured.of_clear rfl ?_
        rw [htrace, Option.map_some, hclear, Option.map_some]
      next snapshot earlier hanswer =>
        rw [hanswer] at hclear
        refine hconfigured.of_clear rfl ?_
        rw [htrace, Option.map_some, hclear, Option.map_some]

theorem Configured.perform (hconfigured : session.Configured settings) (deed : Deed) :
    (session.perform deed).Configured settings := by
  cases deed with
  | load program =>
      have hloaded : { session with program := some program : Session }.Configured settings :=
        hconfigured.of_clear rfl rfl
      exact hloaded.reset
  | reset => exact hconfigured.reset
  | step => exact hconfigured.step
  | stepBack => exact hconfigured.stepBack
  | setBreakpoints | setWatchpoints | state | rehost | mark =>
      exact hconfigured.of_clear rfl rfl

theorem Arises.configured (harises : session.Arises settings) : session.Configured settings := by
  induction harises with
  | start calls => exact configured_start settings calls
  | perform deed _ ih => exact ih.perform deed

/-- What a reset puts back, and what it leaves. -/
theorem reset_of_program (hprogram : session.program = some program) :
    session.reset =
      { settings := session.settings
        calls := session.calls
        program := some program
        machine := Machine.ofProgram program
        previous := (Machine.ofProgram program).memory
        reported := (Machine.ofProgram program).memory
        breakpoints := session.breakpoints
        watchpoints := session.watchpoints.prime (Machine.ofProgram program).memory
        trace := session.reset.trace } := by
  dsimp only [Session.reset, freshMachine]
  rw [hprogram]

/-- A reset asks the trace for nothing but how much it holds. -/
theorem Configured.trace_reset (hconfigured : session.Configured settings)
    (hprogram : session.program = some program) :
    session.reset.trace = ((start settings session.calls).load program).trace := by
  have hfresh : ∀ trace : Trace,
      freshTrace (some program) (Machine.ofProgram program).cpu trace.clear =
        freshTrace (some program) (Machine.ofProgram program).cpu trace := fun _ => rfl
  dsimp only [load, Session.reset, freshMachine]
  rw [← hconfigured.clear_trace, hprogram, Option.map_map]
  exact Option.map_congr fun trace _ => (hfresh trace).symm

end Session

/-- Whatever has happened to a session with a program, a reset makes it, its host aside, the
session that loads the program afresh and is then watched in the same way.  So whatever is asked
of it afterwards is answered as by that session, and what it comes to is the same. -/
theorem reset_eq_fresh_load (settings : Settings) (session : Session) (program : Program)
    (harises : session.Arises settings) (hprogram : session.program = some program) :
    let fresh := fun calls =>
      Session.freshly settings calls program session.breakpoints session.watchpoints
    (∀ calls, { session.reset with calls } = fresh calls) ∧
      ∀ requests,
        session.reset.exchangeAll requests = (fresh session.calls).exchangeAll requests := by
  intro fresh
  have hconfigured := harises.configured
  have hfresh : ∀ calls, { session.reset with calls } = fresh calls := by
    intro calls
    have htrace : session.reset.trace = (fresh calls).trace := hconfigured.trace_reset hprogram
    rw [Session.reset_of_program hprogram, htrace, hconfigured.settings_eq]
    rfl
  refine ⟨hfresh, fun requests => ?_⟩
  rw [← hfresh session.calls]
  rfl

/-- A store, the value that a watchpoint has seen of it and a step back are forgotten. -/
theorem reset_eq_fresh_load_storing :
    let operations : List Operation :=
      [.load .storing, .step, .setWatchpoints ⟨[{ address := 16, width := 2 }]⟩, .stepBack]
    let session := (Session.start {} .standard).operateAll operations
    let watched : Watchpoints := ⟨[{ address := 16, width := 2, lastValue := some 258 }]⟩
    (session.watchpoints = watched ∧ session.steps = 1) ∧
      { session.reset with calls := .standard } =
        Session.freshly {} .standard .storing {} watched := by
  intro operations session watched
  have hwatched : session.watchpoints = watched := by decide +kernel
  have hsteps : session.steps = 1 := by decide +kernel
  have hstart : (Session.start {} .standard).Arises {} := .start .standard
  have harises : session.Arises {} := hstart.operateAll operations
  have hprogram : session.program = some .storing := by rfl
  have hbreakpoints : session.breakpoints = {} := by decide +kernel
  obtain ⟨hreset, -⟩ := reset_eq_fresh_load {} session .storing harises hprogram
  rw [hwatched, hbreakpoints] at hreset
  exact ⟨⟨hwatched, hsteps⟩, hreset .standard⟩

end WordMachine
