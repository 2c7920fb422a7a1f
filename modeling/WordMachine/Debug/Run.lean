import WordMachine.Debug.Session

/-!
# Runs

A run steps a session until something stops it.  Before each step it looks
whether the machine has halted, has come to the cursor or to a breakpoint, or
has used up its steps; after each step it looks at the watchpoints, and at
regular intervals it looks whether it has been cancelled and yields to its
observer.  A run that resumes from a breakpoint or cursor leaves that place
first.
-/

namespace WordMachine

/-- Why a run stopped without an error. -/
inductive PauseReason
  | halted
  /-- Stopped before executing the instruction. -/
  | breakpoint (address : Word)
  | watchpoint (hits : List WatchHit)
  | cursor (address : Word)
  | stepLimit (steps : Nat)
  | cancelled
  deriving DecidableEq

namespace PauseReason

open Text

def outcome : PauseReason → String
  | halted | stepLimit _ | cancelled => "run_complete"
  | breakpoint _ => "breakpoint_hit"
  | watchpoint _ => "watchpoint_hit"
  | cursor _ => "cursor_reached"

def name : PauseReason → String
  | halted => "halted"
  | breakpoint _ => "breakpoint"
  | watchpoint _ => "watchpoint"
  | cursor _ => "cursor"
  | stepLimit _ => "step_limit"
  | cancelled => "cancelled"

def display : PauseReason → Text
  | halted => "Program halted".toList
  | breakpoint address => "Breakpoint at ".toList ++ hexWord address.toNat
  | watchpoint hits => "Watchpoint: ".toList ++ "; ".toList.intercalate (hits.map WatchHit.display)
  | cursor address => "Reached ".toList ++ hexWord address.toNat
  | stepLimit steps => "Stopped after ".toList ++ decimal steps ++ " steps".toList
  | cancelled => "Run cancelled".toList

end PauseReason

/-- What a run keeps to until it is over. -/
structure RunPlan where
  /-- Stop when the instruction pointer comes here. -/
  cursor : Option Word := none
  limit : Nat
  /-- The number of steps between two looks at the host. -/
  interval : Nat
  deriving DecidableEq

/-- The look that is due after so many steps, counted from zero. -/
def RunPlan.lookAfter? (plan : RunPlan) (count : Nat) : Option Nat :=
  if count % plan.interval = 0 then some (count / plan.interval - 1) else none

/-- The look that is due with so many steps left of the limit. -/
def RunPlan.look? (plan : RunPlan) (remaining : Nat) : Option Nat :=
  plan.lookAfter? (plan.limit - remaining)

/-- A run that is not over. -/
structure OpenRun where
  plan : RunPlan
  /-- The steps that are left of the limit. -/
  remaining : Nat
  /-- Whether the run has yet to leave the place at which the last one stopped. -/
  resuming : Bool
  deriving DecidableEq

/-- What a turn of a run comes to. -/
inductive Turn
  | over (outcome : Except Stop PauseReason)
  /-- A step has been taken, and nothing stops the run after it. -/
  | stepped

/-- How a run came out, with what its observer saw, latest first. -/
structure Run (ε : Type) where
  outcome : Except Stop PauseReason
  session : Session
  observed : List ε

/-- The host of a run that is carried out in one go. -/
structure RunHost (ε : Type) where
  /-- Whether the run has been cancelled by the time of each look, counted from zero. -/
  cancelled : Nat → Bool
  /-- What is done at each look that does not find the run cancelled. -/
  observe : Nat → Session → ε × Session

namespace Session

/-- Why a run would stop where it stands, if it would. -/
def pauseHere? (session : Session) (cursor : Option Word) (resuming : Bool) :
    Option PauseReason :=
  let address := session.machine.cpu.instructionPointer
  if session.machine.cpu.halted then some .halted
  else if resuming then none
  else if cursor = some address then some (.cursor address)
  else if session.breakpoints.isActive address then some (.breakpoint address)
  else none

/-- Remember the place at which a run has stopped, so that the next one can leave it. -/
def markPause (session : Session) : PauseReason → Session
  | .cursor address | .breakpoint address => { session with resumeFrom := some address }
  | _ => session

/-- What a run of the session keeps to. -/
def planFor (session : Session) (cursor : Option Word) (limit : Option Nat) : RunPlan :=
  { cursor
    limit := limit.getD session.settings.stepLimit
    interval := max session.settings.yieldInterval 1 }

/-- Whether a run has yet to leave the place at which the last one stopped. -/
def isResuming (session : Session) : Bool :=
  session.resumeFrom = some session.machine.cpu.instructionPointer

/-- Open a run of a session that has a program, from where it stands. -/
def openRun (session : Session) (cursor : Option Word) (limit : Option Nat) :
    Except SessionError (OpenRun × Session) :=
  if session.program.isNone then .error .noProgram
  else
    let plan := session.planFor cursor limit
    .ok ({ plan, remaining := plan.limit, resuming := session.isResuming },
      { session with resumeFrom := none })

/-- Stop a run that has no steps left. -/
def runOut (session : Session) (plan : RunPlan) (resuming : Bool) : PauseReason × Session :=
  let reason := (session.pauseHere? plan.cursor resuming).getD (.stepLimit plan.limit)
  (reason, session.markPause reason)

/-- Take one step of a run that has steps left, unless something stops it first. -/
def turn (session : Session) (plan : RunPlan) (resuming : Bool) : Turn × Session :=
  match session.pauseHere? plan.cursor resuming with
  | some reason => (.over (.ok reason), session.markPause reason)
  | none =>
      match session.step with
      | (.error stop, session) => (.over (.error stop), session)
      | (.ok (hit :: hits), session) => (.over (.ok (.watchpoint (hit :: hits))), session)
      | (.ok [], session) => (.stepped, session)

variable {ε : Type}

/-- Carry out the rest of a run, of which so many steps are left. -/
def runFrom (host : RunHost ε) (plan : RunPlan) :
    (remaining : Nat) → (resuming : Bool) → Session → (observed : List ε) → Run ε
  | 0, resuming, session, observed =>
      let (reason, session) := session.runOut plan resuming
      ⟨.ok reason, session, observed⟩
  | remaining + 1, resuming, session, observed =>
      match session.turn plan resuming with
      | (.over outcome, session) => ⟨outcome, session, observed⟩
      | (.stepped, session) =>
          match plan.look? remaining with
          | none => runFrom host plan remaining false session observed
          | some look =>
              if host.cancelled look then ⟨.ok .cancelled, session, observed⟩
              else
                let (seen, session) := host.observe look session
                runFrom host plan remaining false session (seen :: observed)

/-- Run a session in one go. -/
def run (session : Session) (cursor : Option Word) (limit : Option Nat) (host : RunHost ε) :
    Run ε :=
  match session.openRun cursor limit with
  | .ok (run, session) => runFrom host run.plan run.remaining run.resuming session []
  | .error error => ⟨.error (.failed error.diagnostic), session, []⟩

/-! ## What runs keep -/

variable {P : Session → Prop} {session : Session}

theorem markPause_induction
    (hresume : ∀ session resumeFrom, P session → P { session with resumeFrom })
    (reason : PauseReason) (h : P session) :
    P (session.markPause reason) := by
  cases reason with
  | cursor address | breakpoint address => exact hresume session (some address) h
  | halted | watchpoint | stepLimit | cancelled => exact h

theorem turn_induction
    (hresume : ∀ session resumeFrom, P session → P { session with resumeFrom })
    (hstep : ∀ session, P session → P session.step.2)
    (plan : RunPlan) (resuming : Bool) (h : P session) :
    P (session.turn plan resuming).2 := by
  have hstepped := hstep session h
  unfold turn
  split
  · exact markPause_induction hresume _ h
  · split
    next hanswer =>
      rw [hanswer] at hstepped
      exact hstepped
    next hanswer =>
      rw [hanswer] at hstepped
      exact hstepped
    next hanswer =>
      rw [hanswer] at hstepped
      exact hstepped

/-- What steps and the host keep is kept by a run. -/
theorem runFrom_induction {host : RunHost ε}
    (hresume : ∀ session resumeFrom, P session → P { session with resumeFrom })
    (hstep : ∀ session, P session → P session.step.2)
    (hobserve : ∀ look session, P session → P (host.observe look session).2)
    (plan : RunPlan) (remaining : Nat) (resuming : Bool) (observed : List ε) (h : P session) :
    P (session.runFrom host plan remaining resuming observed).session := by
  induction remaining generalizing resuming session observed with
  | zero => exact markPause_induction hresume _ h
  | succ remaining ih =>
      have hturned := turn_induction hresume hstep plan resuming h
      unfold runFrom
      split
      next outcome stopped hturn =>
        rw [hturn] at hturned
        exact hturned
      next stepped hturn =>
        rw [hturn] at hturned
        split
        · exact ih false observed hturned
        next look _ =>
          split
          · exact hturned
          · exact ih false _ (hobserve look stepped hturned)

theorem run_induction {host : RunHost ε}
    (hresume : ∀ session resumeFrom, P session → P { session with resumeFrom })
    (hstep : ∀ session, P session → P session.step.2)
    (hobserve : ∀ look session, P session → P (host.observe look session).2)
    (cursor : Option Word) (limit : Option Nat) (h : P session) :
    P (session.run cursor limit host).session := by
  unfold run openRun
  split
  next hopen =>
    split at hopen
    · cases hopen
    · cases hopen
      exact runFrom_induction hresume hstep hobserve _ _ _ _ (hresume session none h)
  · exact h

end Session
end WordMachine
