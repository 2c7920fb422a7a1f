import WordMachine.Debug.Run

/-!
# Messages

A host drives a session by commands and is told what came of them by responses.
Every command has exactly one terminal response; a run may send progress before
it.
-/

namespace WordMachine

inductive Command
  /-- Assemble, reset, and run until a pause. -/
  | assembleRun (source : Text)
  /-- Assemble and reset, ready to be stepped. -/
  | assembleStep (source : Text)
  | step
  | reset
  | resume (limit : Option Nat)
  | resumeToCursor (address : Word) (limit : Option Nat)
  | setBreakpoints (breakpoints : List Breakpoint)
  | setWatchpoints (watchpoints : List Watchpoint)
  | stepBack
  | getDisassembly

namespace Command

/-- Whether the command makes a run that is still under way pointless. -/
def supersedes : Command → Bool
  | assembleRun _ | assembleStep _ | reset => true
  | _ => false

def name : Command → String
  | assembleRun _ => "assemble_run"
  | assembleStep _ => "assemble_step"
  | step => "step"
  | reset => "reset"
  | resume _ => "continue"
  | resumeToCursor .. => "continue_to_cursor"
  | setBreakpoints _ => "set_breakpoints"
  | setWatchpoints _ => "set_watchpoints"
  | stepBack => "step_back"
  | getDisassembly => "get_disassembly"

end Command

inductive Response
  | success (state : SessionState)
  /-- The state is that before the instruction that failed, where a program is loaded. -/
  | error (diagnostic : Diagnostic) (state : Option SessionState)
  | stepComplete (state : SessionState) (hits : List WatchHit)
  | paused (reason : PauseReason) (state : SessionState)
  | disassembly (lines : List DisassemblyLine)
  /-- Sent at each yield of a run; more will follow. -/
  | progress (state : SessionState)

namespace Response

def outcome : Response → String
  | success _ => "success"
  | error .. => "error"
  | stepComplete .. => "step_complete"
  | paused reason _ => reason.outcome
  | disassembly _ => "disassembly"
  | progress _ => "progress"

def pauseReason? : Response → Option String
  | paused reason _ => some reason.name
  | stepComplete _ (_ :: _) => some "watchpoint"
  | _ => none

def isTerminal : Response → Bool
  | progress _ => false
  | _ => true

def state? : Response → Option SessionState
  | success state | stepComplete state _ | paused _ state | progress state => some state
  | error _ state => state
  | disassembly _ => none

end Response
end WordMachine
