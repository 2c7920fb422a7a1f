import WordMachine.Debug.Watchpoint
import WordMachine.Literal
import WordMachine.Terminal.Error

/-!
# Debugger actions

A debugger line is a verb and its arguments, separated by blanks.
`Action.ofText` reads a whole line: first the verb, then each argument in turn,
and at last it refuses arguments that are left over.
-/

namespace WordMachine
namespace Terminal

open Text

inductive MemoryLocation
  /-- Relative to the instruction pointer. -/
  | relative (offset : Int)
  | address (address : Word)
  | label (name : Text) (offset : Int)
  deriving DecidableEq

inductive Location
  | register (register : Register)
  | memory (location : MemoryLocation)
  deriving DecidableEq

inductive Action
  | help
  | step (count : Nat)
  | back (count : Nat)
  | resume
  | runUntil (location : MemoryLocation)
  | reset
  | registers
  | get (location : Location)
  | disasm
  | source (location : MemoryLocation)
  | trace (count : Nat)
  | output
  | quit
  | breakList
  | breakAdd (location : MemoryLocation)
  | breakRemove (location : MemoryLocation)
  | watchList
  | watchAdd (location : MemoryLocation) (width : Nat) (condition : Option WatchCondition)
  | watchRemove (location : MemoryLocation)
  deriving DecidableEq

/-- The value of one argument. -/
inductive Argument
  | register (register : Register)
  | integer (value : Int)
  | label (name : Text) (offset : Int)
  | relative (offset : Int)
  deriving DecidableEq

namespace Argument

def kind : Argument → String
  | register _ => "register"
  | integer _ => "integer"
  | label .. => "label"
  | relative _ => "instruction pointer offset"

def integerOf (token : Text) : Except ValueError Int :=
  (Literal.number token).mapError fun _ => .malformedInteger

/-- A signed offset such as `+4` or `-0x10`. -/
def offsetOf (token : Text) : Except ValueError Int := do
  let value ← match token with
    | '+' :: digits => integerOf digits
    | '-' :: digits => (- ·) <$> integerOf digits
    | _ => .error .malformedLabel
  if -32768 ≤ value ∧ value ≤ 32767 then .ok value else .error (.integerTooLarge 32767)

def isSign (c : Char) : Bool := c == '+' || c == '-'

/-- A label, which may have an offset. -/
def labelOf (token : Text) : Except ValueError Argument := do
  let name := token.takeWhile (!isSign ·)
  let offset ← match token.dropWhile (!isSign ·) with
    | [] => .ok 0
    | offset => offsetOf offset
  if isIdentifier name then .ok (.label name offset) else .error .malformed

def ofToken (token : Text) : Except ValueError Argument :=
  match token with
  | ['^'] => .ok (.relative 0)
  | '^' :: rest => relative <$> offsetOf rest
  | _ =>
      match Register.ofText? token with
      | some r => .ok (.register r)
      | none =>
          if Literal.isNumericStart token then integer <$> integerOf token
          else labelOf token

def mismatched (expected : String) (argument : Argument) : ValueError :=
  .mismatchedType expected argument.kind

/-- A count of at least one; smaller numbers are raised to one. -/
def count : Argument → Except ValueError Nat
  | integer value => .ok (max 1 (min value 65535)).toNat
  | argument => .error (argument.mismatched "integer")

def memoryLocation : Argument → Except ValueError MemoryLocation
  | integer value =>
      if 0 ≤ value ∧ value ≤ 65535 then .ok (.address (BitVec.ofInt 16 value))
      else .error (.integerTooLarge 65535)
  | label name offset => .ok (.label name offset)
  | relative offset => .ok (.relative offset)
  | argument => .error (argument.mismatched "address or label")

def location : Argument → Except ValueError Location
  | register r => .ok (.register r)
  | argument => .memory <$> argument.memoryLocation

/-- A width in bytes. -/
def width (token : Text) : Except ValueError Nat :=
  let digits := match token with
    | '+' :: rest => rest
    | _ => token
  match value? 10 digits with
  | some width =>
      if width = 1 ∨ width = 2 ∨ width = 4 then .ok width else .error .invalidWidth
  | none => .error .invalidWidth

def condition (token : Text) : Except ValueError WatchCondition :=
  match WatchCondition.ofText? token with
  | some condition => .ok condition
  | none => .error .invalidCondition

end Argument

/-- Read an argument that may be left out. -/
def optionalArgument {α : Type} (name : String) (read : Text → Except ValueError α)
    (default : α) : List Text → Except ArgumentError (α × List Text)
  | [] => .ok (default, [])
  | token :: rest =>
      match read token with
      | .ok value => .ok (value, rest)
      | .error error => .error (.invalidValue name token error)

/-- Read an argument that must be there, as the first of `expected`. -/
def requiredArgument {α : Type} (name : String) (read : Text → Except ValueError α)
    (expected : UInt8) : List Text → Except ArgumentError (α × List Text)
  | [] => .error (.missing name expected 0)
  | token :: rest =>
      match read token with
      | .ok value => .ok (value, rest)
      | .error error => .error (.invalidValue name token error)

/-- Refuse arguments that are left over.  Their number is kept in a byte, and so is its sum with
the arity; where that sum is out of range the refusal breaks down. -/
def refuseRest (verb : Verb) (rest : List Text) : Except LineFailure Unit :=
  let surplus := UInt8.ofNat rest.length
  if surplus = 0 then .ok ()
  else if verb.arity.toNat + surplus.toNat ≤ 255 then
    .error (.refused (.invalidArgument verb (.tooMany verb.arity (verb.arity + surplus))))
  else .error (.breakdown "the number of arguments exceeds the largest byte")

namespace Action

/-- The number of trace entries that are shown unless another is asked for. -/
def defaultTraceCount : Nat := 8

/-- Read one optional argument, and give those after it. -/
def takeOptional {α : Type} (name : String) (read : Argument → Except ValueError α)
    (default : α) (action : α → Action) (arguments : List Text) :
    Except ArgumentError (Action × List Text) := do
  let (value, rest) ←
    optionalArgument name (fun token => Argument.ofToken token >>= read) default arguments
  .ok (action value, rest)

/-- Read one argument that must be there, and give those after it. -/
def takeRequired {α : Type} (name : String) (read : Argument → Except ValueError α)
    (expected : UInt8) (action : α → Action) (arguments : List Text) :
    Except ArgumentError (Action × List Text) := do
  let (value, rest) ←
    requiredArgument name (fun token => Argument.ofToken token >>= read) expected arguments
  .ok (action value, rest)

def takeWatch (expected : UInt8) (arguments : List Text) :
    Except ArgumentError (Action × List Text) := do
  let (location, rest) ←
    requiredArgument "address" (fun token => Argument.ofToken token >>= Argument.memoryLocation)
      expected arguments
  let (width, rest) ← optionalArgument "width" Argument.width 2 rest
  let (condition, rest) ←
    optionalArgument "condition" (fun token => some <$> Argument.condition token) none rest
  .ok (watchAdd location width condition, rest)

/-- Read the arguments that a verb takes, and give those that are left over. -/
def takeArguments (verb : Verb) (arguments : List Text) :
    Except ArgumentError (Action × List Text) :=
  let here := MemoryLocation.relative 0
  match verb with
  | .help => .ok (help, [])
  | .resume => .ok (resume, arguments)
  | .reset => .ok (reset, arguments)
  | .registers => .ok (registers, arguments)
  | .disasm => .ok (disasm, arguments)
  | .output => .ok (output, arguments)
  | .quit => .ok (quit, arguments)
  | .breakList => .ok (breakList, arguments)
  | .watchList => .ok (watchList, arguments)
  | .step => takeOptional "count" Argument.count 1 step arguments
  | .back => takeOptional "count" Argument.count 1 back arguments
  | .trace => takeOptional "count" Argument.count defaultTraceCount trace arguments
  | .runUntil => takeRequired "location" Argument.memoryLocation verb.arity runUntil arguments
  | .get => takeRequired "location" Argument.location verb.arity get arguments
  | .source => takeOptional "location" Argument.memoryLocation here source arguments
  | .breakAdd => takeOptional "location" Argument.memoryLocation here breakAdd arguments
  | .breakRemove => takeOptional "location" Argument.memoryLocation here breakRemove arguments
  | .watchAdd => takeWatch verb.arity arguments
  | .watchRemove => takeRequired "address" Argument.memoryLocation verb.arity watchRemove arguments

def ofArguments (verb : Verb) (arguments : List Text) : Except LineFailure Action := do
  let (action, rest) ←
    (takeArguments verb arguments).mapError (.refused <| .invalidArgument verb ·)
  refuseRest verb rest
  .ok action

end Action

/-- Read a verb, which takes one word or two, and give the words after it. -/
def verbOf : List Text → Except CommandError (Verb × List Text)
  | [] => .error (.unknown [] (Verb.suggestIn Verb.table []))
  | word :: rest =>
      match Verb.find? Verb.table word with
      | some verb => .ok (verb, rest)
      | none =>
          match Verb.groups.find? fun group => Verb.isOneOf word group.1 with
          | none => .error (.unknown word (Verb.suggestIn Verb.table word))
          | some (names, table) =>
              let group := names.headD ""
              match rest with
              | [] => .error (.missingSubcommand group)
              | second :: rest =>
                  match Verb.find? table second with
                  | some verb => .ok (verb, rest)
                  | none =>
                      .error (.unknownSubcommand group second (Verb.suggestIn table second))

def Action.ofText (line : Text) : Except LineFailure Action := do
  let (verb, arguments) ← (verbOf (words line)).mapError .refused
  Action.ofArguments verb arguments

end Terminal
end WordMachine
