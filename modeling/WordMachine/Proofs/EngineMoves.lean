import WordMachine.Engine.Queue

/-!
# Moves of the engine

A move takes up the next command or takes a turn of the run that is under way.
Either way it ends the service of a command with one terminal response, leaves a
run under way, or leaves it under way after a progress response.  A run is ended
as cancelled only by a look at its token, and its turns are bounded by its limit.
-/

namespace WordMachine

/-! ## Replies -/

/-- The reply ends the service of a command, and not because its run was cancelled. -/
structure EndsUncancelled (reply : Reply) : Prop where
  terminal : (Engine.terminal reply).isTerminal = true
  uncancelled : ∀ state, Engine.terminal reply ≠ .paused .cancelled state

namespace Session

variable {session session' : Session} {plan : RunPlan} {resuming : Bool}

theorem answerError_endsUncancelled (session : Session) (diagnostic : Diagnostic) :
    EndsUncancelled (session.answerError diagnostic).1 := by
  unfold answerError
  split
  · exact ⟨rfl, nofun⟩
  · exact ⟨rfl, nofun⟩

theorem answerStop_endsUncancelled (session : Session) (stop : Stop) :
    EndsUncancelled (session.answerStop stop).1 := by
  cases stop with
  | failed diagnostic => exact answerError_endsUncancelled session diagnostic
  | broken message => exact ⟨rfl, nofun⟩

theorem answerFaulty_endsUncancelled (stop : Stop) : EndsUncancelled (answerFaulty stop) := by
  cases stop with
  | failed diagnostic => exact ⟨rfl, nofun⟩
  | broken message => exact ⟨rfl, nofun⟩

theorem answerRun_endsUncancelled {outcome : Except Stop PauseReason}
    (houtcome : outcome ≠ .ok .cancelled) : EndsUncancelled (session.answerRun outcome).1 := by
  cases outcome with
  | error stop => exact answerStop_endsUncancelled session stop
  | ok reason =>
      constructor
      · rfl
      · intro state hpaused
        apply houtcome
        rw [(Response.paused.inj hpaused).1]

theorem isTerminal_answerRun (session : Session) (outcome : Except Stop PauseReason) :
    (Engine.terminal (session.answerRun outcome).1).isTerminal = true := by
  cases outcome with
  | error stop => exact (answerStop_endsUncancelled session stop).terminal
  | ok reason => rfl

theorem undertakeRun_endsUncancelled {cursor : Option Word} {limit : Option Nat} {reply : Reply}
    (hopen : session.undertakeRun cursor limit = (.answered reply, session')) :
    EndsUncancelled reply := by
  unfold undertakeRun at hopen
  split at hopen
  · cases hopen
  · cases hopen
    exact answerError_endsUncancelled _ _

theorem undertake_endsUncancelled {command : Command} {reply : Reply}
    (hundertake : session.undertake command = (.answered reply, session')) :
    EndsUncancelled reply := by
  cases command with
  | assembleRun source =>
      simp only [undertake] at hundertake
      split at hundertake
      · exact undertakeRun_endsUncancelled hundertake
      · cases hundertake
        exact answerFaulty_endsUncancelled _
  | assembleStep source =>
      simp only [undertake] at hundertake
      split at hundertake
      · cases hundertake
        exact ⟨rfl, nofun⟩
      · cases hundertake
        exact answerFaulty_endsUncancelled _
  | resume | resumeToCursor => exact undertakeRun_endsUncancelled hundertake
  | step =>
      simp only [undertake] at hundertake
      split at hundertake
      · cases hundertake
        exact ⟨rfl, nofun⟩
      · cases hundertake
        exact answerStop_endsUncancelled _ _
  | stepBack =>
      simp only [undertake] at hundertake
      split at hundertake
      · cases hundertake
        exact ⟨rfl, nofun⟩
      · cases hundertake
        exact answerError_endsUncancelled _ _
  | getDisassembly =>
      simp only [undertake] at hundertake
      split at hundertake
      · cases hundertake
        exact ⟨rfl, nofun⟩
      · cases hundertake
        exact ⟨rfl, nofun⟩
  | reset | setBreakpoints | setWatchpoints =>
      cases hundertake
      exact ⟨rfl, nofun⟩

theorem pauseHere?_ne_cancelled (session : Session) (cursor : Option Word) (resuming : Bool) :
    session.pauseHere? cursor resuming ≠ some .cancelled := by
  unfold pauseHere?
  dsimp only
  repeat' split
  all_goals simp

theorem runOut_ne_cancelled (session : Session) (plan : RunPlan) (resuming : Bool) :
    (session.runOut plan resuming).1 ≠ .cancelled := by
  unfold runOut
  cases hpause : session.pauseHere? plan.cursor resuming with
  | none => simp
  | some reason =>
      have hreason := pauseHere?_ne_cancelled session plan.cursor resuming
      rw [hpause] at hreason
      simpa using hreason

theorem turn_ne_cancelled {outcome : Except Stop PauseReason}
    (hturn : session.turn plan resuming = (.over outcome, session')) :
    outcome ≠ .ok .cancelled := by
  unfold turn at hturn
  split at hturn
  next hpause =>
    cases hturn
    intro hcancelled
    cases hcancelled
    exact pauseHere?_ne_cancelled _ _ _ hpause
  · split at hturn
    · cases hturn
      exact nofun
    · cases hturn
      simp
    · cases hturn

/-! ## Settings stay -/

theorem settings_step (session : Session) : session.step.2.settings = session.settings := by
  unfold step
  split
  · rfl
  · dsimp only
    split
    · rfl
    · split
      all_goals rfl

theorem settings_runOut (session : Session) (plan : RunPlan) (resuming : Bool) :
    (session.runOut plan resuming).2.settings = session.settings := by
  apply markPause_induction (P := fun later => later.settings = session.settings)
  · intro later resumeFrom hlater
    exact hlater
  · rfl

theorem settings_turn (session : Session) (plan : RunPlan) (resuming : Bool) :
    (session.turn plan resuming).2.settings = session.settings := by
  apply turn_induction (P := fun later => later.settings = session.settings)
  · intro later resumeFrom hlater
    exact hlater
  · intro later hlater
    rw [settings_step, hlater]
  · rfl

theorem settings_answerRun (session : Session) (outcome : Except Stop PauseReason) :
    (session.answerRun outcome).2.settings = session.settings := by
  rcases outcome with ⟨diagnostic | message⟩ | reason
  · unfold answerRun answerStop answerError
    dsimp only
    split
    all_goals rfl
  · rfl
  · rfl

theorem settings_assemble (session : Session) (source : Text) :
    (session.assemble source).2.settings = session.settings := by
  unfold assemble
  split
  all_goals rfl

theorem settings_stepBack (session : Session) :
    session.stepBack.2.settings = session.settings := by
  unfold stepBack
  repeat' split
  all_goals rfl

theorem settings_undertakeRun (session : Session) (cursor : Option Word) (limit : Option Nat) :
    (session.undertakeRun cursor limit).2.settings = session.settings := by
  unfold undertakeRun
  split
  next hopen =>
    unfold openRun at hopen
    split at hopen
    · cases hopen
    · cases hopen
      rfl
  · exact settings_answerRun session (.error (.failed _))

theorem settings_undertake (session : Session) (command : Command) :
    (session.undertake command).2.settings = session.settings := by
  cases command with
  | assembleRun source | assembleStep source =>
      have hassemble := settings_assemble session source
      simp only [undertake]
      split
      next hloaded =>
        rw [hloaded] at hassemble
        simpa [settings_undertakeRun, atOnce, answer, state] using hassemble
      next hrejected =>
        rw [hrejected] at hassemble
        exact hassemble
  | step =>
      have hstep := settings_step session
      simp only [undertake]
      split
      next hstepped =>
        rw [hstepped] at hstep
        exact hstep
      next hstopped =>
        rw [hstopped] at hstep
        exact (settings_answerRun _ (.error _)).trans hstep
  | stepBack =>
      have hback := settings_stepBack session
      simp only [undertake]
      split
      next hrestored =>
        rw [hrestored] at hback
        exact hback
      next hrefused =>
        rw [hrefused] at hback
        exact (settings_answerRun _ (.error (.failed _))).trans hback
  | resume | resumeToCursor => exact settings_undertakeRun session _ _
  | reset | setBreakpoints | setWatchpoints => rfl
  | getDisassembly =>
      simp only [undertake]
      split
      all_goals rfl

end Session

/-! ## The turns of a command -/

/-- The most turns that the run of a command can take. -/
def Command.turns (settings : Settings) : Command → Nat
  | .assembleRun _ => settings.stepLimit + 1
  | .resume limit | .resumeToCursor _ limit => limit.getD settings.stepLimit + 1
  | .assembleStep _ | .step | .reset | .setBreakpoints _ | .setWatchpoints _ | .stepBack
  | .getDisassembly => 0

namespace Session

variable {session session' : Session}

theorem remaining_of_undertakeRun {cursor : Option Word} {limit : Option Nat} {run : OpenRun}
    (hopen : session.undertakeRun cursor limit = (.running run, session')) :
    run.remaining = limit.getD session.settings.stepLimit := by
  unfold undertakeRun openRun at hopen
  split at hopen
  next hrun =>
    split at hrun
    · cases hrun
    · cases hrun
      cases hopen
      rfl
  · cases hopen

theorem remaining_of_undertake {command : Command} {run : OpenRun}
    (hundertake : session.undertake command = (.running run, session')) :
    run.remaining < command.turns session.settings := by
  cases command with
  | assembleRun source =>
      have hassemble := settings_assemble session source
      simp only [undertake] at hundertake
      split at hundertake
      next hloaded =>
        rw [hloaded] at hassemble
        rw [remaining_of_undertakeRun hundertake, hassemble]
        exact Nat.lt_succ_self _
      · cases hundertake
  | resume | resumeToCursor =>
      rw [remaining_of_undertakeRun hundertake]
      exact Nat.lt_succ_self _
  | assembleStep | step | stepBack | getDisassembly =>
      simp only [undertake] at hundertake
      split at hundertake
      all_goals cases hundertake
  | reset | setBreakpoints | setWatchpoints => cases hundertake

end Session

/-! ## What a move comes to -/

namespace Engine

variable {engine engine' : Engine} {token : CancelToken}

/-- What a move makes of an engine that is serving a command sent under a token. -/
inductive Serves (engine : Engine) (token : CancelToken) : Engine → Prop
  | ends (session : Session) (response : Response) :
      response.isTerminal = true →
        (∀ state, response = .paused .cancelled state → engine.isCancelled token = true) →
          Serves engine token
            { engine with session, running := none, responses := engine.responses ++ [response] }
  | goesOn (session : Session) (run : OpenRun) :
      Serves engine token { engine with session, running := some (run, token) }
  | progresses (session : Session) (run : OpenRun) (state : SessionState) :
      engine.isCancelled token = false →
        Serves engine token
          { engine with
            session
            running := some (run, token)
            responses := engine.responses ++ [.progress state] }

theorem finish_serves {reply : Reply × Session}
    (hreply : EndsUncancelled reply.1) : engine.Serves token (engine.finish reply) := by
  apply Serves.ends
  · exact hreply.terminal
  · intro state hpaused
    exact absurd hpaused (hreply.uncancelled state)

theorem takeUp_serves (engine : Engine) (request : Request) :
    engine.Serves request.token (engine.takeUp request) := by
  unfold takeUp
  split
  next hanswered => exact finish_serves (Session.undertake_endsUncancelled hanswered)
  · exact .goesOn _ _

theorem takeTurn_serves (engine : Engine) (run : OpenRun) (token : CancelToken) :
    engine.Serves token (engine.takeTurn run token) := by
  unfold takeTurn
  split
  · apply finish_serves
    apply Session.answerRun_endsUncancelled
    intro hcancelled
    exact Session.runOut_ne_cancelled _ _ _ (Except.ok.inj hcancelled)
  · split
    next hover =>
      apply finish_serves
      exact Session.answerRun_endsUncancelled (Session.turn_ne_cancelled hover)
    next session _ =>
      dsimp only
      split
      · exact .goesOn _ _
      · split
        next hcancelled =>
          -- only here may the response say that the run was cancelled
          exact .ends _ _ (Session.isTerminal_answerRun session _) fun _ _ => hcancelled
        next hcancelled => exact .progresses _ _ _ (eq_false_of_ne_true hcancelled)

/-- A move goes on with the run that is under way, or else takes up the first request. -/
theorem move?_cases (hmove : engine.move? = some engine') :
    (∃ run token,
      engine.running = some (run, token) ∧ engine' = engine.takeTurn run token) ∨
    ∃ request queue,
      engine.running = none ∧ engine.queue = request :: queue ∧
        engine' = { engine with queue }.takeUp request := by
  unfold move? at hmove
  split at hmove
  next hrunning =>
    cases hmove
    exact .inl ⟨_, _, hrunning, rfl⟩
  next hrunning hqueue =>
    cases hmove
    exact .inr ⟨_, _, hrunning, hqueue, rfl⟩
  · cases hmove

theorem move?_eq_none (hmove : engine.move? = none) :
    engine.running = none ∧ engine.queue = [] := by
  unfold move? at hmove
  split at hmove
  · cases hmove
  · cases hmove
  next hrunning hqueue => exact ⟨hrunning, hqueue⟩

/-- The tokens are the host's: no move makes one or cancels one. -/
theorem Serves.tokens_eq (hserves : engine.Serves token engine') :
    engine'.current = engine.current ∧ engine'.cancelled = engine.cancelled := by
  cases hserves with
  | ends | goesOn | progresses => exact ⟨rfl, rfl⟩

theorem move?_tokens (hmove : engine.move? = some engine') :
    engine'.current = engine.current ∧ engine'.cancelled = engine.cancelled := by
  rcases move?_cases hmove with ⟨run, token, -, rfl⟩ | ⟨request, queue, -, -, rfl⟩
  · exact (takeTurn_serves engine run token).tokens_eq
  · exact (takeUp_serves { engine with queue } request).tokens_eq

theorem settings_takeUp (engine : Engine) (request : Request) :
    (engine.takeUp request).session.settings = engine.session.settings := by
  have hsettings := engine.session.settings_undertake request.command
  unfold takeUp
  split
  next hundertake =>
    rw [hundertake] at hsettings
    exact hsettings
  next hundertake =>
    rw [hundertake] at hsettings
    exact hsettings

theorem settings_takeTurn (engine : Engine) (run : OpenRun) (token : CancelToken) :
    (engine.takeTurn run token).session.settings = engine.session.settings := by
  have hturned := engine.session.settings_turn run.plan run.resuming
  unfold takeTurn
  split
  · exact (Session.settings_answerRun _ _).trans (Session.settings_runOut _ _ _)
  · split
    next hturn =>
      rw [hturn] at hturned
      exact (Session.settings_answerRun _ _).trans hturned
    next hturn =>
      rw [hturn] at hturned
      dsimp only
      split
      · exact hturned
      · split
        · exact (Session.settings_answerRun _ (.ok .cancelled)).trans hturned
        · exact hturned

theorem turnsLeft_takeUp (engine : Engine) (request : Request) :
    (engine.takeUp request).turnsLeft ≤ request.command.turns engine.session.settings := by
  unfold takeUp
  split
  · exact Nat.zero_le _
  next hundertake => exact Session.remaining_of_undertake hundertake

end Engine
end WordMachine
