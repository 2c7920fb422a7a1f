import WordMachine.Engine.Dispatch

/-!
# The engine

An engine serves commands in the order in which they were sent and keeps its
responses until they are received.  It works in moves: it takes up the next
command, or takes one turn of the run that the last command opened.  What the
host does happens between two moves.

Every command is sent under the current cancel token.  A command that
supersedes runs, and a call of `cancel`, cancel that token and make a new one; a
run looks at the token of its own command.  A breakdown becomes an error
response, and the engine goes on.  Every move leaves less to be done, so a
host that waits for a response comes to an end.
-/

namespace WordMachine

/-- Tokens are numbered in the order in which they are made. -/
abbrev CancelToken := Nat

structure Request where
  command : Command
  token : CancelToken

structure Engine where
  session : Session
  /-- The commands that have been sent and not taken up, in order. -/
  queue : List Request := []
  /-- The run that is under way, with the token of its command. -/
  running : Option (OpenRun × CancelToken) := none
  /-- The responses that have been made and not received, in order. -/
  responses : List Response := []
  current : CancelToken := 0
  cancelled : List CancelToken := []

namespace Engine

/-! ## What the host does -/

def isCancelled (engine : Engine) (token : CancelToken) : Bool := token ∈ engine.cancelled

def cancelToken (engine : Engine) (token : CancelToken) : Engine :=
  { engine with cancelled := token :: engine.cancelled }

/-- Cancel every command that is queued or being served. -/
def cancel (engine : Engine) : Engine :=
  { engine.cancelToken engine.current with current := engine.current + 1 }

/-- Queue a command and answer the token that cancels it. -/
def send (engine : Engine) (command : Command) : CancelToken × Engine :=
  let engine := if command.supersedes then engine.cancel else engine
  (engine.current,
    { engine with queue := engine.queue ++ [{ command, token := engine.current }] })

/-- Take the first response that is waiting. -/
def take? (engine : Engine) : Option (Response × Engine) :=
  match engine.responses with
  | [] => none
  | response :: responses => some (response, { engine with responses })

/-! ## What the engine does -/

/-- The terminal response that a reply comes to. -/
def terminal : Reply → Response
  | .ok response => response
  | .error message => .error (SessionError.breakdown message).diagnostic none

/-- Send the terminal response to the command that is being served. -/
def finish (engine : Engine) (reply : Reply × Session) : Engine :=
  { engine with
    session := reply.2
    running := none
    responses := engine.responses ++ [terminal reply.1] }

/-- Take up a command. -/
def takeUp (engine : Engine) (request : Request) : Engine :=
  match engine.session.undertake request.command with
  | (.answered reply, session) => engine.finish (reply, session)
  | (.running run, session) => { engine with session, running := some (run, request.token) }

/-- Send the state of a run that is under way. -/
def sendProgress (engine : Engine) : Engine :=
  let (state, session) := engine.session.state
  { engine with session, responses := engine.responses ++ [.progress state] }

/-- Take one turn of the run that is under way. -/
def takeTurn (engine : Engine) (run : OpenRun) (token : CancelToken) : Engine :=
  match run.remaining with
  | 0 =>
      let (reason, session) := engine.session.runOut run.plan run.resuming
      engine.finish (session.answerRun (.ok reason))
  | remaining + 1 =>
      match engine.session.turn run.plan run.resuming with
      | (.over outcome, session) => engine.finish (session.answerRun outcome)
      | (.stepped, session) =>
          let run := { run with remaining, resuming := false }
          let stepped := { engine with session, running := some (run, token) }
          if (run.plan.look? remaining).isNone then stepped
          else if engine.isCancelled token then
            stepped.finish (session.answerRun (.ok .cancelled))
          else stepped.sendProgress

/-- Make one move, if there is anything to do. -/
def move? (engine : Engine) : Option Engine :=
  match engine.running, engine.queue with
  | some (run, token), _ => some (engine.takeTurn run token)
  | none, request :: queue => some ({ engine with queue }.takeUp request)
  | none, [] => none

/-! ## Waiting -/

/-- The most turns that the run under way can still take. -/
def turnsLeft (engine : Engine) : Nat :=
  match engine.running with
  | some (run, _) => run.remaining + 1
  | none => 0

/-- An engine has less to do and to hand out than another. -/
def Nearer (engine' engine : Engine) : Prop :=
  engine'.queue.length < engine.queue.length ∨
    engine'.queue.length = engine.queue.length ∧
      (engine'.turnsLeft < engine.turnsLeft ∨
        engine'.turnsLeft = engine.turnsLeft ∧
          engine'.responses.length < engine.responses.length)

theorem Nearer.trans {first second third : Engine}
    (h : first.Nearer second) (h' : second.Nearer third) : first.Nearer third := by
  unfold Nearer at *
  omega

theorem Nearer.lex {engine' engine : Engine} (h : engine'.Nearer engine) :
    Prod.Lex (· < ·) (Prod.Lex (· < ·) (· < ·))
      (engine'.queue.length, engine'.turnsLeft, engine'.responses.length)
      (engine.queue.length, engine.turnsLeft, engine.responses.length) := by
  simpa [Prod.lex_def, Nearer] using h

theorem take?_nearer {engine engine' : Engine} {response : Response}
    (h : engine.take? = some (response, engine')) : engine'.Nearer engine := by
  unfold take? at h
  split at h
  · simp at h
  · rename_i heq
    cases h
    exact .inr ⟨rfl, .inr ⟨rfl, by simp [heq]⟩⟩

theorem takeUp_queue (engine : Engine) (request : Request) :
    (engine.takeUp request).queue = engine.queue := by
  unfold takeUp
  split <;> rfl

theorem takeTurn_queue (engine : Engine) (run : OpenRun) (token : CancelToken) :
    (engine.takeTurn run token).queue = engine.queue := by
  unfold takeTurn
  split
  · rfl
  · split
    · rfl
    · dsimp only
      split
      · rfl
      · split <;> rfl

theorem turnsLeft_takeTurn (engine : Engine) (run : OpenRun) (token : CancelToken) :
    (engine.takeTurn run token).turnsLeft ≤ run.remaining := by
  unfold takeTurn
  split
  · exact Nat.zero_le _
  · rename_i hremaining
    split
    · exact Nat.zero_le _
    · dsimp only
      split
      · exact hremaining ▸ Nat.le_refl _
      · split
        · exact Nat.zero_le _
        · exact hremaining ▸ Nat.le_refl _

theorem move?_nearer {engine engine' : Engine} (h : engine.move? = some engine') :
    engine'.Nearer engine := by
  unfold move? at h
  split at h
  · rename_i run token hrunning
    cases h
    have hturns := engine.turnsLeft_takeTurn run token
    refine .inr ⟨by rw [takeTurn_queue], .inl ?_⟩
    rw [show engine.turnsLeft = run.remaining + 1 by simp [turnsLeft, hrunning]]
    exact Nat.lt_succ_of_le hturns
  · rename_i hqueue
    cases h
    exact .inl (by simp [takeUp_queue, hqueue])
  · simp at h

/-- Take the first response, working until there is one. -/
def receive? (engine : Engine) : Option (Response × Engine) :=
  match engine.take? with
  | some received => some received
  | none =>
      match _h : engine.move? with
      | none => none
      | some engine' => receive? engine'
termination_by (engine.queue.length, engine.turnsLeft, engine.responses.length)
decreasing_by exact (move?_nearer _h).lex

theorem receive?_nearer {engine engine' : Engine} {response : Response}
    (h : engine.receive? = some (response, engine')) : engine'.Nearer engine := by
  fun_induction receive? engine with
  | case1 engine received htake => exact take?_nearer (htake.trans h)
  | case2 => simp at h
  | case3 engine _ next hmove ih => exact (ih h).trans (move?_nearer hmove)

/-- Receive up to the next terminal response, together with the progress before it. -/
def receiveTerminal? (engine : Engine) (progress : List SessionState) :
    Option (Response × List SessionState × Engine) :=
  match _h : engine.receive? with
  | none => none
  | some (.progress state, engine') => receiveTerminal? engine' (state :: progress)
  | some (response, engine') => some (response, progress.reverse, engine')
termination_by (engine.queue.length, engine.turnsLeft, engine.responses.length)
decreasing_by exact (receive?_nearer _h).lex

/-- Send a command and wait for a terminal response. -/
def request? (engine : Engine) (command : Command) :
    Option (Response × List SessionState × Engine) :=
  (engine.send command).2.receiveTerminal? []

/-- Receive until nothing is left to do. -/
def receiveAll (engine : Engine) (received : List Response) : List Response × Engine :=
  match _h : engine.receive? with
  | none => (received.reverse, engine)
  | some (response, engine') => receiveAll engine' (response :: received)
termination_by (engine.queue.length, engine.turnsLeft, engine.responses.length)
decreasing_by exact (receive?_nearer _h).lex

end Engine
end WordMachine
