import WordMachine.Debug.Session
import WordMachine.Text.Numeral

/-!
# Settings from the environment

Environment variables adjust the settings of a session.  A variable that is
missing or malformed leaves its default.  Settings must be read exactly once
before they are used.
-/

namespace WordMachine

/-- The value of an environment variable, if it is set. -/
abbrev Environment := String → Option String

namespace Environment

open Text

/-- The greatest value that a variable may have: 64 bits, all set. -/
def maxNumber : Nat := 18446744073709551615

/-- An unsigned decimal number, which may have blanks around it and a plus sign. -/
def number? (value : String) : Option Nat :=
  let token := trim value.toList
  let digits := match token with
    | '+' :: rest => rest
    | _ => token
  (value? 10 digits).filter (· ≤ maxNumber)

def get (environment : Environment) (name : String) (default : Nat) : Nat :=
  ((environment name).bind number?).getD default

/-- The settings of a session.  Recording is on unless it is disabled; output is not echoed. -/
def settings (environment : Environment) : Settings :=
  let standard : Settings := {}
  { trace := environment "TOYASM_TRACE" != some "0"
    traceCapacity := max (environment.get "TOYASM_TRACE_CAPACITY" standard.traceCapacity) 1
    stepLimit := environment.get "TOYASM_STEP_LIMIT" standard.stepLimit
    yieldInterval := max (environment.get "TOYASM_YIELD_INTERVAL" standard.yieldInterval) 1
    echo := false }

inductive Misuse
  | initializedTwice
  | notInitialized
  deriving DecidableEq

def Misuse.message : Misuse → String
  | initializedTwice => "tried to initialize environment state multiple times"
  | notInitialized => "tried to access environment state before initialization"

/-- The settings after the environment has been read a number of times. -/
def settingsAfter (environment : Environment) (readings : Nat) : Except Misuse Settings :=
  if readings = 0 then .error .notInitialized
  else if readings = 1 then .ok environment.settings
  else .error .initializedTwice

end Environment
end WordMachine
