import WordMachine.Diagnostic.Basic
import WordMachine.Isa.Register
import WordMachine.Text.Numeral

/-!
# Session errors

What a debugging session refuses to do, with no line of source to blame.
-/

namespace WordMachine

inductive SessionError
  | noProgram
  | traceDisabled
  /-- There is no snapshot before the current one. -/
  | traceExhausted
  | invalidWatchWidth (width : Nat)
  | watchOutOfBounds (address : Word) (width : Nat)
  /-- The machine or its host gave up, and the session was served by an engine. -/
  | breakdown (message : String)
  deriving DecidableEq

namespace SessionError

def code : SessionError → String
  | noProgram => "session::no_program"
  | traceDisabled | traceExhausted => "session::trace"
  | invalidWatchWidth _ | watchOutOfBounds .. => "session::watchpoint"
  | breakdown _ => "session::panic"

def message : SessionError → String
  | noProgram => "No program has been assembled"
  | traceDisabled => "Trace recording is disabled"
  | traceExhausted => "No earlier snapshot to step back to"
  | invalidWatchWidth width =>
      "Invalid watchpoint width " ++ toString width ++ " (expected 1, 2 or 4 bytes)"
  | watchOutOfBounds address width =>
      "Watchpoint of " ++ toString width ++ " bytes at " ++
        String.ofList (Text.hexWord address.toNat) ++ " runs past the end of memory"
  | breakdown message => "Engine panicked: " ++ message

def diagnostic (error : SessionError) : Diagnostic :=
  Diagnostic.detached error.code error.message

end SessionError
end WordMachine
