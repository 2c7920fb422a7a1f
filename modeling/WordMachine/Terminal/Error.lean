import WordMachine.Isa.Opcode
import WordMachine.Terminal.Verb
import WordMachine.Text.Numeral

/-!
# Debugger command errors

What can be wrong with a line given to the debugger, and how it is told.
Numbers of arguments are counted in a byte.
-/

namespace WordMachine
namespace Terminal

open Text

inductive ValueError
  | mismatchedType (expected found : String)
  | malformed
  | malformedInteger
  | malformedLabel
  | integerTooLarge (max : Nat)
  | invalidWidth
  | invalidCondition
  deriving DecidableEq

inductive ArgumentError
  | missing (argument : String) (expected found : UInt8)
  | tooMany (expected found : UInt8)
  | invalidValue (argument : String) (value : Text) (error : ValueError)
  deriving DecidableEq

inductive CommandError
  | unknown (name : Text) (suggested : Option Verb)
  | missingSubcommand (group : String)
  | unknownSubcommand (group : String) (name : Text) (suggested : Option Verb)
  | invalidArgument (verb : Verb) (error : ArgumentError)
  deriving DecidableEq

/-- Why a line is not read as an action.  A breakdown ends the debugger. -/
inductive LineFailure
  | refused (error : CommandError)
  | breakdown (message : String)
  deriving DecidableEq

/-- The start of a line of detail below an error. -/
def detail : String := "\n        "

namespace ValueError

def message : ValueError → String
  | mismatchedType expected found =>
      "Incorrect value type." ++ detail ++ "Expected " ++ expected ++ "." ++ detail ++ "Found " ++
        found ++ "."
  | malformed => "Invalid value."
  | malformedInteger => "Malformed integer."
  | malformedLabel => "Malformed label."
  | integerTooLarge max =>
      "Integer too large." ++ detail ++ "Maximum value: " ++ String.ofList (hexWord max) ++ "."
  | invalidWidth => "Width must be 1, 2 or 4 bytes."
  | invalidCondition => "Condition must be `read`, `write` or `change`."

end ValueError

namespace ArgumentError

def counts (expected found : UInt8) : String :=
  detail ++ "Expected " ++ toString expected.toNat ++ " argument" ++
    (if expected = 1 then "" else "s") ++ ", found " ++ toString found.toNat ++ "."

def message : ArgumentError → String
  | missing argument expected found =>
      "Missing argument `" ++ argument ++ "`." ++ counts expected found
  | tooMany expected found => "Too many arguments." ++ counts expected found
  | invalidValue argument value error =>
      "For argument `" ++ argument ++ "`: `" ++ String.ofList value ++ "`." ++ detail ++
        error.message

end ArgumentError

namespace CommandError

def didYouMean : Option Verb → String
  | some verb => "\n    Did you mean `" ++ verb.display ++ "`?"
  | none => ""

def message : CommandError → String
  | unknown name suggested =>
      "Not a command: `" ++ String.ofList name ++ "`." ++ didYouMean suggested ++
        if (Opcode.ofText? name).isSome then
          "\n    Instructions cannot be run from the debugger. Edit the source and re-assemble."
        else ""
  | missingSubcommand group => "Missing subcommand: `" ++ group ++ " (...)`."
  | unknownSubcommand group name suggested =>
      "Invalid subcommand: `" ++ group ++ " " ++ String.ofList name ++ "`." ++
        didYouMean suggested
  | invalidArgument verb error =>
      "In command `" ++ verb.display ++ "`:\n    " ++ error.message

end CommandError

end Terminal
end WordMachine
