import WordMachine.Engine.Message

/-!
# Dispatch

Carrying out one command on a session.  Most commands are answered at once;
three open a run, which a host that can be interrupted carries on turn by turn,
and which `dispatch` carries out in one go.  If the machine or its host breaks
down, or the assembler does, there is no terminal response, and the session is as
what broke has left it.
-/

namespace WordMachine

/-- The terminal response to a command, or the message of a breakdown. -/
abbrev Reply := Except String Response

/-- What a command comes to before any step of a run. -/
inductive Undertaking
  | answered (reply : Reply)
  | running (run : OpenRun)

/-- What came of a command that was carried out in one go. -/
structure Dispatched where
  session : Session
  /-- The progress of its run, in order. -/
  progress : List SessionState := []
  reply : Reply

namespace Session

/-- Take a state and put it into a response. -/
def answer (session : Session) (response : SessionState → Response) : Reply × Session :=
  let (state, session) := session.state
  (.ok (response state), session)

/-- An error, with the state if a program is loaded. -/
def answerError (session : Session) (diagnostic : Diagnostic) : Reply × Session :=
  if session.program.isSome then session.answer fun state => .error diagnostic (some state)
  else (.ok (.error diagnostic none), session)

def answerStop (session : Session) : Stop → Reply × Session
  | .failed diagnostic => session.answerError diagnostic
  | .broken message => (.error message, session)

/-- The answer to a source text that is not assembled, which tells nothing of the state. -/
def answerFaulty : Stop → Reply
  | .failed diagnostic => .ok (.error diagnostic none)
  | .broken message => .error message

/-- The answer of a run that is over. -/
def answerRun (session : Session) : Except Stop PauseReason → Reply × Session
  | .ok reason => session.answer (.paused reason)
  | .error stop => session.answerStop stop

/-- An answer that needs no run. -/
def atOnce (answer : Reply × Session) : Undertaking × Session := (.answered answer.1, answer.2)

def undertakeRun (session : Session) (cursor : Option Word) (limit : Option Nat) :
    Undertaking × Session :=
  match session.openRun cursor limit with
  | .ok (run, session) => (.running run, session)
  | .error error => atOnce (session.answerError error.diagnostic)

/-- Answer a command that opens no run, or open the run of one that does. -/
def undertake (session : Session) : Command → Undertaking × Session
  | .assembleRun source =>
      match session.assemble source with
      | (.ok (), session) => session.undertakeRun none none
      | (.error stop, session) => (.answered (answerFaulty stop), session)
  | .assembleStep source =>
      match session.assemble source with
      | (.ok (), session) => atOnce (session.answer .success)
      | (.error stop, session) => (.answered (answerFaulty stop), session)
  | .step =>
      match session.step with
      | (.ok hits, session) => atOnce (session.answer (.stepComplete · hits))
      | (.error stop, session) => atOnce (session.answerStop stop)
  | .reset => atOnce (session.reset.answer .success)
  | .resume limit => session.undertakeRun none limit
  | .resumeToCursor address limit => session.undertakeRun (some address) limit
  | .setBreakpoints breakpoints =>
      atOnce ((session.setBreakpoints (Breakpoints.ofList breakpoints)).answer .success)
  | .setWatchpoints watchpoints =>
      atOnce ((session.setWatchpoints ⟨watchpoints⟩).answer .success)
  | .stepBack =>
      match session.stepBack with
      | (.ok (), session) => atOnce (session.answer .success)
      | (.error error, session) => atOnce (session.answerError error.diagnostic)
  | .getDisassembly =>
      match session.disassemble with
      | .ok lines => (.answered (.ok (.disassembly lines)), session)
      | .error diagnostic => (.answered (.ok (.error diagnostic none)), session)

/-- Carry out a command in one go. -/
def dispatch (session : Session) (cancelled : Nat → Bool) (command : Command) : Dispatched :=
  match session.undertake command with
  | (.answered reply, session) => { session, reply }
  | (.running run, session) =>
      let run :=
        runFrom { cancelled, observe := fun _ => Session.state } run.plan run.remaining run.resuming
          session []
      let (reply, session) := run.session.answerRun run.outcome
      { session, progress := run.observed.reverse, reply }

end Session
end WordMachine
