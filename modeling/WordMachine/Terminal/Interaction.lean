import WordMachine.Engine.Dispatch
import WordMachine.Terminal.Action
import WordMachine.Terminal.Manual
import WordMachine.Terminal.Registers

/-!
# Interaction

A debugger reads lines, carries each out on its session and shows what came of
it.  `Debugger.runScript` does so for a whole script.  A breakdown, of the machine
or in reading a line, ends the debugger, whatever it has shown so far.
-/

namespace WordMachine
namespace Terminal

open Text

structure Debugger where
  session : Session
  /-- The source text that the session's program was assembled from. -/
  source : Text
  screen : Screen

/-- Whether the debugger reads another line. -/
inductive Next
  | continues (debugger : Debugger)
  | quits (debugger : Debugger)

namespace Debugger

def onScreen (debugger : Debugger) (screen : Screen → Screen) : Debugger :=
  { debugger with screen := screen debugger.screen }

def sayLine (debugger : Debugger) (line : String) : Debugger :=
  debugger.onScreen (·.sayLine .always line)

def instructionPointer (debugger : Debugger) : Word :=
  debugger.session.machine.cpu.instructionPointer

/-- Show what the program has printed, if output is echoed. -/
def echo (debugger : Debugger) (earlier : Console) : Debugger :=
  if debugger.session.settings.echo then
    debugger.onScreen fun screen =>
      (debugger.session.machine.console.writesSince earlier).foldl Screen.print screen
  else debugger

/-- Carry out one command and answer its terminal response. -/
def exchange (debugger : Debugger) (command : Command) :
    Except String (Response × Debugger) :=
  let dispatched := debugger.session.dispatch (fun _ => false) command
  let debugger' := { debugger with session := dispatched.session }.echo
    debugger.session.machine.console
  match dispatched.reply with
  | .ok response => .ok (response, debugger')
  | .error message => .error message

/-- Show the statement of the instruction at an address. -/
def showSource (debugger : Debugger) (address : Word) : Debugger :=
  match debugger.session.program with
  | none => debugger
  | some program =>
      match program.locate? debugger.source address with
      | some report => debugger.onScreen (·.report report)
      | none =>
          debugger.sayLine
            ("No instruction at " ++ String.ofList (hexWord address.toNat) ++ ".")

/-- Show where execution stands, unless the screen is minimal or the machine has halted. -/
def showLocation (debugger : Debugger) : Debugger :=
  if debugger.screen.minimal || debugger.session.machine.cpu.halted then debugger
  else debugger.showSource debugger.instructionPointer

def showDiagnostic (debugger : Debugger) (diagnostic : Diagnostic) : Except String Debugger :=
  if 0 < diagnostic.line then
    match Report.ofDiagnostic debugger.source diagnostic with
    | .ok report => .ok (debugger.onScreen (·.report report))
    | .error .insideCharacter => .error "a column falls inside a character"
  else .ok (debugger.sayLine diagnostic.display)

def showResponse (debugger : Debugger) : Response → Except String Debugger
  | .paused reason _ =>
      .ok (((debugger.onScreen Screen.startNewLine).sayLine
        (String.ofList reason.display)).showLocation)
  | .error diagnostic _ => (debugger.onScreen Screen.startNewLine).showDiagnostic diagnostic
  | .stepComplete state _ =>
      if state.cpu.halted then
        .ok ((debugger.onScreen Screen.startNewLine).sayLine "Program halted")
      else .ok debugger
  | _ => .ok debugger

/-- Say that a name is not defined, and what may have been meant. -/
def labelNotFound (program : Program) (name : Text) : String :=
  "Label not found named `" ++ String.ofList name ++ "`." ++
    match suggest name (program.symbols.symbols.map (·.name)) with
    | some suggested => " Did you mean `" ++ String.ofList suggested ++ "`?"
    | none => ""

/-- The number that a location stands for, or what to say where it stands for none. -/
def locationValue (debugger : Debugger) : MemoryLocation → Except (Option String) Int
  | .relative offset => .ok (debugger.instructionPointer.toNat + offset)
  | .address address => .ok address.toNat
  | .label name offset =>
      match debugger.session.program with
      | none => .error none
      | some program =>
          match program.symbols.value? name with
          | some value => .ok (value + offset)
          | none => .error (some (labelNotFound program name))

def resolve (debugger : Debugger) (location : MemoryLocation) :
    Except (Option String) Word := do
  let value ← debugger.locationValue location
  if 0 ≤ value ∧ value ≤ 65535 then .ok (BitVec.ofInt 16 value)
  else .error (some ("Address out of range: " ++ String.ofList (signed value) ++ "."))

/-- Do something at a location, or say why there is no such place. -/
def atLocation (debugger : Debugger) (location : MemoryLocation)
    (action : Word → Except String Debugger) : Except String Debugger :=
  match debugger.resolve location with
  | .ok address => action address
  | .error (some line) => .ok (debugger.sayLine line)
  | .error none => .ok debugger

def hex (address : Word) : String := String.ofList (hexWord address.toNat)

/-- Step up to `count` times, until something is worth telling. -/
def steps : (count : Nat) → Debugger → Except String Debugger
  | 0, debugger => .ok debugger
  | count + 1, debugger => do
      let (response, debugger) ← debugger.exchange .step
      match response with
      | .stepComplete state hits =>
          let debugger := hits.foldl
            (fun debugger hit =>
              debugger.sayLine ("Watchpoint: " ++ String.ofList hit.display))
            debugger
          if hits.isEmpty && !state.cpu.halted then steps count debugger
          else debugger.showResponse response
      | _ => debugger.showResponse response

/-- Step back up to `count` times, as far as the trace goes. -/
def stepsBack : (count : Nat) → Debugger → Except String Debugger
  | 0, debugger => .ok debugger
  | count + 1, debugger => do
      let (response, debugger) ← debugger.exchange .stepBack
      match response with
      | .error .. => debugger.showResponse response
      | _ => stepsBack count debugger

def exchangeAndShow (debugger : Debugger) (command : Command) : Except String Debugger := do
  let (response, debugger) ← debugger.exchange command
  debugger.showResponse response

def sayWord (debugger : Debugger) (name : Text) (value : Word) : Debugger :=
  debugger.onScreen fun screen =>
    screen.say .always
      (name ++ [':', ' '] ++ renderWord screen.minimal value ++ ['\n'])

/-- Show the word at an address. -/
def showWord (debugger : Debugger) (address : Word) : Except String Debugger :=
  match debugger.session.machine.memory.readWord address.toNat with
  | .ok value => .ok (debugger.sayWord ('[' :: hexWord address.toNat ++ [']']) value)
  | .error (.fault fault) => .ok (debugger.sayLine fault.message)
  | .error (.breakdown message) => .error message

def marker (debugger : Debugger) (address : Word) : String :=
  if address = debugger.instructionPointer then ">"
  else if debugger.session.breakpoints.isActive address then "*"
  else " "

def showDisassembly (debugger : Debugger) : Debugger :=
  match debugger.session.disassemble with
  | .error diagnostic => debugger.sayLine diagnostic.display
  | .ok lines =>
      lines.foldl
        (fun shown line =>
          shown.sayLine
            (debugger.marker line.address ++ " " ++ String.ofList line.display))
        debugger

/-- One line of the trace; the current entry is marked. -/
def traceLine (isCurrent : Bool) (index : Nat) (snapshot : Snapshot) : Text :=
  let statement := match snapshot.instruction with
    | some instruction =>
        trimRight
          (instruction.opcode.mnemonic.toList ++ [' '] ++ instruction.renderOperands)
    | none => "(end of program)".toList
  let line := match snapshot.instruction with
    | some instruction => "line ".toList ++ decimal instruction.line
    | none => []
  [if isCurrent then '>' else ' ', ' ', '#'] ++ padRight 4 (decimal index) ++ [' '] ++
    hexWord snapshot.cpu.instructionPointer.toNat ++ [' ', ' '] ++ padRight 24 statement ++
    [' '] ++ line

def showTrace (debugger : Debugger) (count : Nat) : Debugger :=
  match debugger.session.trace with
  | none => debugger.sayLine "Trace recording is disabled."
  | some trace =>
      let finish := trace.cursor + 1
      let shown := (trace.entries.toList.zipIdx.take finish).drop (finish - count)
      shown.foldl
        (fun debugger entry =>
          debugger.sayLine
            (String.ofList (traceLine (entry.2 + 1 == finish) entry.2 entry.1)))
        debugger

def showOutput (debugger : Debugger) : Debugger :=
  match debugger.session.machine.console.lines with
  | [] => debugger.sayLine "No output."
  | lines => debugger.onScreen fun screen => lines.foldl Screen.printRecorded screen

/-- The label at an instruction, in parentheses. -/
def labelAt (debugger : Debugger) (address : Word) : String :=
  match debugger.session.program.bind (·.symbols.codeLabelAt? address) with
  | some symbol => " (" ++ String.ofList symbol.name ++ ")"
  | none => ""

def listBreakpoints (debugger : Debugger) : Debugger :=
  match debugger.session.breakpoints.toList with
  | [] => debugger.sayLine "No breakpoints exist."
  | breakpoints =>
      breakpoints.foldl
        (fun debugger breakpoint =>
          debugger.sayLine
            ("    " ++ hex breakpoint.address ++ debugger.labelAt breakpoint.address))
        (debugger.sayLine "Breakpoints:")

def addBreakpoint (debugger : Debugger) (address : Word) : Debugger :=
  let session := debugger.session
  if (session.breakpoints.get? address).isSome then
    debugger.sayLine ("Breakpoint already exists at " ++ hex address ++ ".")
  else
    { debugger with
      session := session.setBreakpoints (session.breakpoints.insert { address }) }.sayLine
      ("Added breakpoint at " ++ hex address ++ ".")

def removeBreakpoint (debugger : Debugger) (address : Word) : Debugger :=
  let session := debugger.session
  let (found, breakpoints) := session.breakpoints.remove address
  if found then
    { debugger with session := session.setBreakpoints breakpoints }.sayLine
      ("Removed breakpoint at " ++ hex address ++ ".")
  else debugger.sayLine ("No breakpoint exists at " ++ hex address ++ ".")

def listWatchpoints (debugger : Debugger) : Debugger :=
  match debugger.session.watchpoints.toList with
  | [] => debugger.sayLine "No watchpoints exist."
  | watchpoints =>
      watchpoints.foldl
        (fun debugger watchpoint =>
          debugger.sayLine ("    " ++ String.ofList watchpoint.display))
        (debugger.sayLine "Watchpoints:")

/-- Replace the watchpoints by way of a command. -/
def setWatchpoints (debugger : Debugger) (watchpoints : Watchpoints) :
    Except String Debugger := do
  let (_, debugger) ← debugger.exchange (.setWatchpoints watchpoints.toList)
  .ok debugger

/-- Watch an address in place of any other watchpoint there. -/
def addWatchpoint (debugger : Debugger) (address : Word) (width : Nat)
    (condition : Option WatchCondition) : Except String Debugger :=
  match Watchpoint.make address width condition with
  | .error error => .ok (debugger.sayLine error.message)
  | .ok watchpoint =>
      (debugger.sayLine
          ("Added watchpoint at " ++ String.ofList watchpoint.display ++ ".")).setWatchpoints
        ((debugger.session.watchpoints.erase address).push watchpoint)

def removeWatchpoint (debugger : Debugger) (address : Word) : Except String Debugger :=
  let watchpoints := debugger.session.watchpoints
  if watchpoints.contains address then
    (debugger.sayLine ("Removed watchpoint at " ++ hex address ++ ".")).setWatchpoints
      (watchpoints.erase address)
  else .ok (debugger.sayLine ("No watchpoint exists at " ++ hex address ++ "."))

def reset (debugger : Debugger) : Except String Debugger := do
  let debugger ← debugger.exchangeAndShow .reset
  .ok (debugger.sayLine "Reset program.").showLocation

/-- Carry out an action that does not end the debugger. -/
def perform (debugger : Debugger) : Action → Except String Debugger
  | .help => .ok (debugger.sayLine manual)
  | .quit => .ok debugger
  | .step count => showLocation <$> steps count debugger
  | .back count => showLocation <$> stepsBack count debugger
  | .resume => debugger.exchangeAndShow (.resume none)
  | .runUntil location =>
      debugger.atLocation location fun address =>
        debugger.exchangeAndShow (.resumeToCursor address none)
  | .reset => debugger.reset
  | .registers =>
      .ok (debugger.onScreen fun screen =>
        screen.say .always
          (renderRegisters screen.minimal debugger.session.machine.cpu))
  | .get (.register register) =>
      .ok (debugger.sayWord register.render (debugger.session.machine.cpu.get register))
  | .get (.memory location) => debugger.atLocation location debugger.showWord
  | .disasm => .ok debugger.showDisassembly
  | .source location =>
      debugger.atLocation location fun address => .ok (debugger.showSource address)
  | .trace count => .ok (debugger.showTrace count)
  | .output => .ok debugger.showOutput
  | .breakList => .ok debugger.listBreakpoints
  | .breakAdd location =>
      debugger.atLocation location fun address => .ok (debugger.addBreakpoint address)
  | .breakRemove location =>
      debugger.atLocation location fun address => .ok (debugger.removeBreakpoint address)
  | .watchList => .ok debugger.listWatchpoints
  | .watchAdd location width condition =>
      debugger.atLocation location (debugger.addWatchpoint · width condition)
  | .watchRemove location => debugger.atLocation location debugger.removeWatchpoint

/-- Read one line of a script, which is repeated on the screen. -/
def readLine (debugger : Debugger) (line : Text) : Except String Next :=
  let line := trim line
  if line.isEmpty then .ok (.continues debugger)
  else
    let debugger := debugger.onScreen (·.sayLine .sometimes (bold ++ "> " ++ String.ofList line))
    match Action.ofText line with
    | .error (.refused error) => .ok (.continues (debugger.sayLine error.message))
    | .error (.breakdown message) => .error message
    | .ok .quit => .ok (.quits debugger)
    | .ok action => .continues <$> debugger.perform action

def readLines (debugger : Debugger) : List Text → Except String Debugger
  | [] => .ok debugger
  | line :: rest => do
      match ← debugger.readLine line with
      | .continues debugger => debugger.readLines rest
      | .quits debugger => .ok debugger

/-- The lines of a script, which end at a semicolon or a newline. -/
def scriptLines (script : Text) : List Text :=
  script.splitOnP fun c => c == ';' || c == '\n'

/-- Run the debugger from its greeting to its farewell. -/
def runScript (debugger : Debugger) (script : Text) : Except String Debugger := do
  let greeted := (debugger.onScreen
    (·.sayLine .sometimes "Debugger started. Type `help` for a list of commands.")).showLocation
  let debugger ← greeted.readLines (scriptLines script)
  .ok ((debugger.onScreen Screen.startNewLine).onScreen (·.sayLine .sometimes "Stopping debugger."))

/-- A debugger on a session, with an empty screen. -/
def start (session : Session) (source : Text) (minimal : Bool) : Debugger :=
  { session, source, screen := { minimal } }

end Debugger
end Terminal
end WordMachine
