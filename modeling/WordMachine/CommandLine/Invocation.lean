import WordMachine.Environment
import WordMachine.Text.Letters

/-!
# Invocations

What the arguments of the command line ask for.  Arguments are read from left to
right, and the first that cannot be accepted makes the whole line a misuse; a
request for help or for the version is answered as soon as it is seen.  A path in
front of a subcommand is looked at only after the subcommand has been read.
-/

namespace WordMachine
namespace CommandLine

open Text

inductive Subcommand
  | run | debug | check | disasm | watch
  deriving DecidableEq

namespace Subcommand

def all : List Subcommand := [run, debug, check, disasm, watch]

def name : Subcommand → String
  | run => "run"
  | debug => "debug"
  | check => "check"
  | disasm => "disasm"
  | watch => "watch"

def ofText? (word : Text) : Option Subcommand := all.find? (·.name.toList == word)

end Subcommand

/-- The options that some subcommand takes. -/
inductive Switch
  | minimal | stepLimit | script
  deriving DecidableEq

namespace Switch

def short : Switch → Char
  | minimal => 'm'
  | stepLimit => 's'
  | script => 'c'

def long : Switch → String
  | minimal => "minimal"
  | stepLimit => "step-limit"
  | script => "command"

def takesValue : Switch → Bool
  | minimal => false
  | stepLimit | script => true

end Switch

def Subcommand.switches : Subcommand → List Switch
  | .run => [.minimal, .stepLimit]
  | .debug => [.script, .minimal, .stepLimit]
  | .check | .disasm | .watch => []

/-- What there is help about. -/
inductive Topic
  | program
  | subcommand (subcommand : Subcommand)
  /-- The request for help itself. -/
  | help
  deriving DecidableEq

inductive Invocation
  | welcome
  | version
  | help (topic : Topic)
  | run (path : Text) (minimal : Bool) (limit : Option Nat)
  | debug (path : Text) (script : Option Text) (minimal : Bool) (limit : Option Nat)
  | check (path : Text)
  | disasm (path : Text)
  | watch (path : Text)
  | misuse
  deriving DecidableEq

/-- The file that an invocation reads. -/
def Invocation.path? : Invocation → Option Text
  | run path _ _ | debug path _ _ _ | check path | disasm path | watch path => some path
  | _ => none

/-- Whether an invocation reads a script from standard input. -/
def Invocation.readsInput : Invocation → Bool
  | debug _ none _ _ => true
  | _ => false

/-- What the arguments of a subcommand have given so far. -/
structure Given where
  path : Option Text := none
  minimal : Bool := false
  limit : Option Nat := none
  script : Option Text := none

namespace Given

def setPath (given : Given) (path : Text) : Except Invocation Given :=
  if given.path.isSome || path.isEmpty then .error .misuse
  else .ok { given with path := some path }

/-- Take a switch over; each may be given once. -/
def setSwitch (given : Given) (switch : Switch) (value : Text) : Except Invocation Given :=
  match switch with
  | .minimal => if given.minimal then .error .misuse else .ok { given with minimal := true }
  | .script =>
      if given.script.isSome then .error .misuse else .ok { given with script := some value }
  | .stepLimit =>
      let digits := match value with
        | '+' :: rest => rest
        | _ => value
      match (value? 10 digits).filter (· ≤ Environment.maxNumber) with
      | some limit =>
          if given.limit.isSome then .error .misuse else .ok { given with limit := some limit }
      | none => .error .misuse

def invocation (given : Given) (subcommand : Subcommand) : Invocation :=
  match given.path with
  | none => .misuse
  | some path =>
      match subcommand with
      | .run => .run path given.minimal given.limit
      | .debug => .debug path given.script given.minimal given.limit
      | .check => .check path
      | .disasm => .disasm path
      | .watch => .watch path

end Given

/-- Whether an argument is an option and not a value. -/
def isOption : Text → Bool
  | '-' :: _ :: _ => true
  | _ => false

/-- A value after an equals sign, or as it stands. -/
def attached : Text → Text
  | '=' :: value => value
  | value => value

/-- One option of an argument: a switch with a value, or one whose value is still to come. -/
inductive Reading
  | complete (given : Given)
  | pending (given : Given) (switch : Switch)

/-- Read a cluster of short options; one that takes a value takes all that follows. -/
def readShort (subcommand : Subcommand) (given : Given) :
    Text → Except Invocation Reading
  | [] => .ok (.complete given)
  | 'h' :: _ => .error (.help (.subcommand subcommand))
  | c :: rest =>
      match subcommand.switches.find? (·.short == c) with
      | none => .error .misuse
      | some switch =>
          if switch.takesValue then
            if rest.isEmpty then .ok (.pending given switch)
            else .complete <$> given.setSwitch switch (attached rest)
          else do
            let given ← given.setSwitch switch []
            readShort subcommand given rest

/-- Read a long option; its value may follow an equals sign. -/
def readLong (subcommand : Subcommand) (given : Given) (option : Text) :
    Except Invocation Reading :=
  let name := option.takeWhile (· != '=')
  match option.dropWhile (· != '=') with
  | [] =>
      if name = "help".toList then .error (.help (.subcommand subcommand))
      else
        match subcommand.switches.find? (·.long.toList == name) with
        | none => .error .misuse
        | some switch =>
            if switch.takesValue then .ok (.pending given switch)
            else .complete <$> given.setSwitch switch []
  | _ :: value =>
      match subcommand.switches.find? (·.long.toList == name) with
      | none => .error .misuse
      | some switch =>
          if switch.takesValue then .complete <$> given.setSwitch switch value
          else .error .misuse

def readOption (subcommand : Subcommand) (given : Given) (option : Text) :
    Except Invocation Reading :=
  match option with
  | '-' :: '-' :: rest => readLong subcommand given rest
  | _ => readShort subcommand given (option.drop 1)

/-- Read the arguments of a subcommand; after two dashes all are taken as they stand. -/
def readArguments (subcommand : Subcommand) (given : Given) :
    List Text → Except Invocation Given
  | [] => .ok given
  | argument :: rest => do
      if argument = ['-', '-'] then rest.foldlM Given.setPath given
      else if isOption argument then
        match ← readOption subcommand given argument with
        | .complete given => readArguments subcommand given rest
        | .pending given switch =>
            match rest with
            | [] => .error .misuse
            | value :: rest =>
                if isOption value then .error .misuse
                else do
                  let given ← given.setSwitch switch value
                  readArguments subcommand given rest
      else do
        let given ← given.setPath argument
        readArguments subcommand given rest

def ofExcept : Except Invocation Invocation → Invocation
  | .ok invocation | .error invocation => invocation

def readSubcommand (subcommand : Subcommand) (arguments : List Text) : Invocation :=
  ofExcept ((Given.invocation · subcommand) <$> readArguments subcommand {} arguments)

/-- The topic that a request for help names. -/
def readHelp : List Text → Invocation
  | [] => .help .program
  | [topic] =>
      if topic = "help".toList then .help .help
      else
        match Subcommand.ofText? topic with
        | some subcommand => .help (.subcommand subcommand)
        | none => .misuse
  | _ => .misuse

/-- What a line with a path alone, or with nothing, asks for. -/
def withoutSubcommand : Option Text → Invocation
  | none => .welcome
  | some [] => .misuse
  | some path => .run path false none

/--
What a line asks for that has a path in front.  No path is empty; but help about
a subcommand has been given by the time that the path is looked at.
-/
def afterPath (path : Option Text) : Invocation → Invocation
  | .help topic => .help topic
  | invocation => if path = some [] then .misuse else invocation

/-- Read a whole line of arguments. -/
def readLine (path : Option Text) : List Text → Invocation
  | [] => withoutSubcommand path
  | argument :: rest =>
      if argument = ['-', '-'] then
        ofExcept do
          let given ← rest.foldlM Given.setPath { path }
          .ok (withoutSubcommand given.path)
      else if isOption argument then
        if path = some [] then .misuse
        else if argument = "--help".toList ∨ argument.take 2 = "-h".toList then .help .program
        else if argument = "--version".toList ∨ argument.take 2 = "-V".toList then .version
        else .misuse
      else if argument = "help".toList then readHelp rest
      else
        match Subcommand.ofText? argument with
        | some subcommand => afterPath path (readSubcommand subcommand rest)
        | none => if path.isSome then .misuse else readLine (some argument) rest

end CommandLine
end WordMachine
