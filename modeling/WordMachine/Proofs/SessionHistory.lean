import WordMachine.Debug.Run

/-!
# Histories of sessions

Whatever a host does to a session comes down to deeds, one after the other.  Most
operations are a single deed.  A run is a step for each instruction it executes,
what its host does whenever it looks, and the mark it leaves where it pauses.  So
a fact that every deed keeps is kept by every sequence of operations, and what
has happened to a session can be read off the list of its deeds.
-/

namespace WordMachine

/-- A change of a session that is not made of smaller ones. -/
inductive Deed
  | load (program : Program)
  | reset
  | step
  | stepBack
  | setBreakpoints (breakpoints : Breakpoints)
  | setWatchpoints (watchpoints : Watchpoints)
  | state
  /-- Turn to another host for system calls from now on. -/
  | rehost (calls : Handler)
  /-- Note where a run has paused, or forget where one has. -/
  | mark (resumeFrom : Option Word)

/-- What a host can ask of a session.  At each look of a run it may do more to the session, as
the session then is; a run that it starts there counts as the deeds it comes to. -/
inductive Operation
  | assemble (source : Text)
  | load (program : Program)
  | reset
  | step
  | stepBack
  | setBreakpoints (breakpoints : Breakpoints)
  | setWatchpoints (watchpoints : Watchpoints)
  | state
  | rehost (calls : Handler)
  | run (cursor : Option Word) (limit : Option Nat) (cancelled : Nat → Bool)
      (looked : Nat → Session → List Deed)

namespace Session

def rehost (session : Session) (calls : Handler) : Session := { session with calls }

def perform (session : Session) : Deed → Session
  | .load program => session.load program
  | .reset => session.reset
  | .step => session.step.2
  | .stepBack => session.stepBack.2
  | .setBreakpoints breakpoints => session.setBreakpoints breakpoints
  | .setWatchpoints watchpoints => session.setWatchpoints watchpoints
  | .state => session.state.2
  | .rehost calls => session.rehost calls
  | .mark resumeFrom => { session with resumeFrom }

def performAll (session : Session) (deeds : List Deed) : Session := deeds.foldl perform session

def deedsHost (cancelled : Nat → Bool) (looked : Nat → Session → List Deed) : RunHost Unit where
  cancelled
  observe look session := ((), session.performAll (looked look session))

/-- The session after an operation, whether it succeeds or fails. -/
def operate (session : Session) : Operation → Session
  | .assemble source => (session.assemble source).2
  | .load program => session.load program
  | .reset => session.reset
  | .step => session.step.2
  | .stepBack => session.stepBack.2
  | .setBreakpoints breakpoints => session.setBreakpoints breakpoints
  | .setWatchpoints watchpoints => session.setWatchpoints watchpoints
  | .state => session.state.2
  | .rehost calls => session.rehost calls
  | .run cursor limit cancelled looked =>
      (session.run cursor limit (deedsHost cancelled looked)).session

/-- What can become of a session with these settings, whoever its hosts are. -/
inductive Arises (settings : Settings) : Session → Prop
  | start (calls : Handler) : Arises settings (start settings calls)
  | perform {session : Session} (deed : Deed) :
      Arises settings session → Arises settings (session.perform deed)

def operateAll (session : Session) (operations : List Operation) : Session :=
  operations.foldl operate session

/-! ## The deeds of an operation -/

def pauseDeeds : PauseReason → List Deed
  | .cursor address | .breakpoint address => [.mark (some address)]
  | .halted | .watchpoint _ | .stepLimit _ | .cancelled => []

def runDeedsFrom (cancelled : Nat → Bool) (looked : Nat → Session → List Deed)
    (plan : RunPlan) : (remaining : Nat) → (resuming : Bool) → Session → List Deed
  | 0, resuming, session => pauseDeeds (session.runOut plan resuming).1
  | remaining + 1, resuming, session =>
      match session.pauseHere? plan.cursor resuming with
      | some reason => pauseDeeds reason
      | none =>
          .step ::
            match session.step with
            | (.ok [], session) =>
                match plan.look? remaining with
                | none => runDeedsFrom cancelled looked plan remaining false session
                | some look =>
                    if cancelled look then []
                    else
                      looked look session ++
                        runDeedsFrom cancelled looked plan remaining false
                          (session.performAll (looked look session))
            | _ => []

def deeds (session : Session) : Operation → List Deed
  | .assemble source =>
      match WordMachine.assemble source with
      | .ok program => [.load program]
      | .error _ => []
  | .load program => [.load program]
  | .reset => [.reset]
  | .step => [.step]
  | .stepBack => [.stepBack]
  | .setBreakpoints breakpoints => [.setBreakpoints breakpoints]
  | .setWatchpoints watchpoints => [.setWatchpoints watchpoints]
  | .state => [.state]
  | .rehost calls => [.rehost calls]
  | .run cursor limit cancelled looked =>
      match session.openRun cursor limit with
      | .ok (run, session) =>
          .mark none :: runDeedsFrom cancelled looked run.plan run.remaining run.resuming session
      | .error _ => []

/-- The deeds of operations that follow one another. -/
def allDeeds (session : Session) : List Operation → List Deed
  | [] => []
  | operation :: operations =>
      session.deeds operation ++ (session.operate operation).allDeeds operations

variable {session : Session}

@[simp]
theorem performAll_nil (session : Session) : session.performAll [] = session := rfl

@[simp]
theorem performAll_cons (session : Session) (deed : Deed) (deeds : List Deed) :
    session.performAll (deed :: deeds) = (session.perform deed).performAll deeds := rfl

theorem performAll_append (session : Session) (deeds later : List Deed) :
    session.performAll (deeds ++ later) = (session.performAll deeds).performAll later :=
  List.foldl_append

theorem performAll_pauseDeeds (session : Session) (reason : PauseReason) :
    session.performAll (pauseDeeds reason) = session.markPause reason := by
  cases reason with
  | cursor | breakpoint => rfl
  | halted | watchpoint | stepLimit | cancelled => rfl

theorem performAll_runDeedsFrom
    (cancelled : Nat → Bool) (looked : Nat → Session → List Deed) (plan : RunPlan)
    (remaining : Nat) (resuming : Bool) (session : Session) (observed : List Unit) :
    session.performAll (session.runDeedsFrom cancelled looked plan remaining resuming) =
      (session.runFrom (deedsHost cancelled looked) plan remaining resuming observed).session := by
  -- the deeds are listed along the recursion of the run itself, on the steps that are left
  induction remaining generalizing resuming session observed with
  | zero =>
      rw [runDeedsFrom, performAll_pauseDeeds]
      rfl
  | succ remaining ih =>
      rw [runDeedsFrom, runFrom, turn]
      cases hpause : session.pauseHere? plan.cursor resuming with
      | some reason => exact performAll_pauseDeeds session reason
      | none =>
          dsimp only
          rw [performAll_cons, perform]
          rcases session.step with ⟨stop | (_ | ⟨hit, hits⟩), after⟩
          · rfl
          · dsimp only
            cases hlook : plan.look? remaining with
            | none => exact ih false after observed
            | some look =>
                have hhost : (deedsHost cancelled looked).cancelled look = cancelled look := rfl
                dsimp only
                rw [hhost]
                by_cases hcancelled : cancelled look = true
                · rw [if_pos hcancelled, if_pos hcancelled, performAll_nil]
                · rw [if_neg hcancelled, if_neg hcancelled, performAll_append]
                  exact ih false _ _
          · rfl

theorem performAll_deeds (session : Session) (operation : Operation) :
    session.performAll (session.deeds operation) = session.operate operation := by
  cases operation with
  | assemble source =>
      rw [deeds, operate]
      cases hassemble : WordMachine.assemble source with
      | ok program =>
          rw [session.assemble_of_ok hassemble]
          rfl
      | error failure =>
          obtain ⟨stop, hstop⟩ := session.assemble_of_error hassemble
          rw [hstop]
          rfl
  | load | reset | step | stepBack | setBreakpoints | setWatchpoints | state | rehost => rfl
  | run cursor limit cancelled looked =>
      rw [deeds, operate, Session.run]
      unfold openRun
      by_cases hprogram : session.program.isNone = true
      · rw [if_pos hprogram]
        rfl
      · rw [if_neg hprogram]
        exact performAll_runDeedsFrom cancelled looked _ _ _ _ _

theorem performAll_allDeeds (session : Session) (operations : List Operation) :
    session.performAll (session.allDeeds operations) = session.operateAll operations := by
  induction operations generalizing session with
  | nil => rfl
  | cons operation operations ih =>
      rw [allDeeds, performAll_append, performAll_deeds]
      exact ih (session.operate operation)

/-- What every deed keeps is kept by every sequence of operations. -/
theorem operateAll_induction {P : Session → Prop}
    (hdeed : ∀ session deed, P session → P (session.perform deed))
    (operations : List Operation) (h : P session) :
    P (session.operateAll operations) := by
  rw [← performAll_allDeeds]
  generalize session.allDeeds operations = deeds
  induction deeds generalizing session with
  | nil => exact h
  | cons deed deeds ih => exact ih (hdeed session deed h)

theorem Arises.operateAll {settings : Settings} (harises : session.Arises settings)
    (operations : List Operation) : (session.operateAll operations).Arises settings :=
  operateAll_induction (fun _ deed => .perform deed) operations harises

end Session
end WordMachine
