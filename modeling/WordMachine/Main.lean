import WordMachine.CommandLine.Execution

/-!
# The command

The outer layer: it gathers what an invocation reads, carries the invocation out
and writes its result.
-/

namespace WordMachine

/-- The contents of a file, if it can be read as text. -/
def readFile? (path : Text) : IO (Option Text) := do
  try
    let contents ← IO.FS.readFile (String.ofList path)
    return some contents.toList
  catch _ => return none

/-- The rest of standard input. -/
partial def readInput (stream : IO.FS.Stream) (read : String) : IO String := do
  let line ← stream.getLine
  if line.isEmpty then return read else readInput stream (read ++ line)

def environmentNames : List String :=
  ["TOYASM_TRACE", "TOYASM_TRACE_CAPACITY", "TOYASM_STEP_LIMIT", "TOYASM_YIELD_INTERVAL"]

/-- Gather what an invocation depends on. -/
def gather (invocation : CommandLine.Invocation) : IO CommandLine.World := do
  let contents ← match invocation.path? with
    | some path => readFile? path
    | none => pure none
  let values ← environmentNames.mapM fun name => return (name, ← IO.getEnv name)
  let input ← if invocation.readsInput then readInput (← IO.getStdin) "" else pure ""
  return {
    file := fun path => if invocation.path? = some path then contents else none
    environment := fun name => (values.lookup name).join
    input := input.toList }

end WordMachine

def main (arguments : List String) : IO UInt32 := do
  let invocation := WordMachine.CommandLine.readLine none (arguments.map (·.toList))
  let world ← WordMachine.gather invocation
  let result := WordMachine.CommandLine.perform world invocation
  IO.print result.output
  IO.eprint result.errors
  return UInt32.ofNat result.status
