import WordMachine.CommandLine.Manual
import WordMachine.Engine.Queue
import WordMachine.Terminal.Interaction

/-!
# Carrying out an invocation

The result of an invocation is what it writes and its exit status.  It depends
on the outside world through the contents of files, the environment and the text
on standard input.
-/

namespace WordMachine
namespace CommandLine

open Text

structure World where
  /-- The contents of a file, if it can be read. -/
  file : Text → Option Text
  environment : Environment
  input : Text

structure Result where
  status : Nat := 0
  output : String := ""
  errors : String := ""
  deriving DecidableEq

/-- A message with its heading, which ends at column twelve. -/
def message (heading text : String) : String :=
  String.ofList (padLeft ' ' 12 heading.toList) ++ " " ++ text ++ "\n"

def fileMessage (heading : String) (path : Text) : String :=
  message heading ("target " ++ String.ofList path)

/-- The last part of a path; slashes at its end do not count. -/
def fileName (path : Text) : Text :=
  (((path.reverse.dropWhile (· == '/')).takeWhile (· != '/'))).reverse

/-- What follows the last point of a file name, unless that point begins the name. -/
def extension? (path : Text) : Option Text :=
  let reversed := (fileName path).reverse
  match reversed.dropWhile (· != '.') with
  | [] | ['.'] => none
  | _ => if fileName path = ['.', '.'] then none else some (reversed.takeWhile (· != '.')).reverse

/-- The contents of a file whose name says that it holds assembly. -/
def source? (world : World) (path : Text) : Option Text :=
  if extension? path = some "asm".toList ∨ extension? path = some "s".toList then
    world.file path
  else none

/-- The settings for a session whose output is shown. -/
def settings (world : World) (limit : Option Nat) : Settings :=
  let settings := world.environment.settings
  { settings with echo := true, stepLimit := limit.getD settings.stepLimit }

/-- What is shown after a program has stopped, and the exit status. -/
def ending (path : Text) : Response → Nat × String
  | .paused .halted state =>
      (0, (if state.console.isEmpty then "" else "\n") ++ fileMessage "Completed" path)
  | .paused reason _ => (1, "\n" ++ message "Stopped" (String.ofList reason.display))
  | .error .. => (1, "\n")
  | _ => (1, "")

def run (world : World) (path : Text) (limit : Option Nat) : Result :=
  let assembling := fileMessage "Assembling" path
  match source? world path with
  | none => { status := 1, output := assembling }
  | some source =>
      let engine : Engine :=
        { session := Session.start (settings world limit) .standard }
      let started := assembling ++ message "Running" "assembled program"
      match engine.request? (.assembleRun source) with
      | none => { status := 1, output := started }
      | some (response, _, engine) =>
          let (status, ending) := ending path response
          let printed := String.ofList engine.session.machine.console.text
          { status, output := started ++ printed ++ ending }

def debug (world : World) (path : Text) (script : Option Text) (minimal : Bool)
    (limit : Option Nat) : Result :=
  match source? world path with
  | none => { status := 1 }
  | some source =>
      match (Session.start (settings world limit) .standard).assemble source with
      | (.error (.failed _), _) => { status := 1 }
      | (.error (.broken _), _) => { status := 101 }
      | (.ok (), session) =>
          let debugger := Terminal.Debugger.start session source minimal
          match debugger.runScript (script.getD world.input) with
          | .error _ => { status := 101 }
          | .ok debugger =>
              { output := debugger.screen.output, errors := debugger.screen.errors }

def check (world : World) (path : Text) : Result :=
  let checking := fileMessage "Checking" path
  match (world.file path).map assemble with
  | some (.ok program) =>
      let count := toString program.instructions.size
      { output := checking ++
          message "Success" ("no errors found! (" ++ count ++ " instructions)") }
  | some (.error (.breakdown _)) => { status := 101, output := checking }
  | _ => { status := 1, output := checking }

def disasm (world : World) (path : Text) : Result :=
  match (world.file path).map assemble with
  | some (.ok program) =>
      { output := lines (program.disassemble.map fun line => String.ofList line.display) }
  | some (.error (.breakdown _)) => { status := 101 }
  | _ => { status := 1 }

/-- What is shown when a watch begins; a file that is not there cannot be watched. -/
def watch (world : World) (path : Text) : Result :=
  if (world.file path).isSome then
    { output := "\x1b[2J\x1b[2;1H" ++ fileMessage "Watching" path ++
        message "Help" "press CTRL+C to exit" }
  else { status := 1 }

def perform (world : World) : Invocation → Result
  | .welcome => { output := welcome }
  | .version => { output := programName ++ " " ++ version ++ "\n" }
  | .help topic => { output := help topic }
  | .run path _ limit => run world path limit
  | .debug path script minimal limit => debug world path script minimal limit
  | .check path => check world path
  | .disasm path => disasm world path
  | .watch path => watch world path
  | .misuse => { status := 2 }

/-- The result of a line of arguments. -/
def execute (world : World) (arguments : List Text) : Result :=
  perform world (readLine none arguments)

end CommandLine
end WordMachine
