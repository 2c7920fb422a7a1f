import WordMachine.Debug.Error
import WordMachine.Debug.Region

/-!
# Watchpoints

A watchpoint remembers the value of one, two or four bytes and fires when a step
has changed it.  Only changes can be seen, so `write` means the same as
`change`, and `read` never fires.
-/

namespace WordMachine

inductive WatchCondition
  | read | write | change
  deriving DecidableEq

namespace WatchCondition

def name : WatchCondition → String
  | read => "read"
  | write => "write"
  | change => "change"

def ofText? (word : Text) : Option WatchCondition :=
  [read, write, change].find? (Text.sameWord ·.name.toList word)

end WatchCondition

structure Watchpoint where
  address : Word
  width : Nat
  condition : Option WatchCondition := none
  /-- The value when the watchpoint was last compared. -/
  lastValue : Option Nat := none
  deriving DecidableEq

/-- A watchpoint whose value has changed. -/
structure WatchHit where
  address : Word
  width : Nat
  old : Nat
  new : Nat
  deriving DecidableEq

namespace WatchHit

open Text

def display (hit : WatchHit) : Text :=
  hexWord hit.address.toNat ++ " changed from 0x".toList ++ hexadecimal hit.old ++
    " to 0x".toList ++ hexadecimal hit.new

end WatchHit

namespace Watchpoint

open Text

/-- A watchpoint of a width of 1, 2 or 4 bytes that lies inside memory. -/
def make (address : Word) (width : Nat) (condition : Option WatchCondition) :
    Except SessionError Watchpoint :=
  if width ≠ 1 ∧ width ≠ 2 ∧ width ≠ 4 then .error (.invalidWatchWidth width)
  else if Memory.size < address.toNat + width then .error (.watchOutOfBounds address width)
  else .ok { address, width, condition }

def canFire (watchpoint : Watchpoint) : Bool := watchpoint.condition != some .read

def display (watchpoint : Watchpoint) : Text :=
  hexWord watchpoint.address.toNat ++ " (".toList ++ decimal watchpoint.width ++
    " byte".toList ++ (if 1 < watchpoint.width then ['s'] else []) ++
    (match watchpoint.condition with
    | some condition => ", ".toList ++ condition.name.toList
    | none => []) ++
    [')']

/-- Remember the present value. -/
def prime (memory : Memory) (watchpoint : Watchpoint) : Watchpoint :=
  { watchpoint with lastValue := memory.read? watchpoint.address.toNat watchpoint.width }

def isTouched (regions : List Region) (watchpoint : Watchpoint) : Bool :=
  regions.any (·.overlaps watchpoint.address.toNat watchpoint.width)

/-- The hit, if the value has changed since it was last compared. -/
def hit? (memory : Memory) (watchpoint : Watchpoint) : Option WatchHit :=
  match watchpoint.lastValue, memory.read? watchpoint.address.toNat watchpoint.width with
  | some old, some new =>
      if old ≠ new ∧ watchpoint.canFire then
        some { address := watchpoint.address, width := watchpoint.width, old, new }
      else none
  | _, _ => none

end Watchpoint

structure Watchpoints where
  toList : List Watchpoint := []
  deriving DecidableEq

namespace Watchpoints

def prime (watchpoints : Watchpoints) (memory : Memory) : Watchpoints :=
  ⟨watchpoints.toList.map (Watchpoint.prime memory)⟩

/-- Compare the watchpoints that changed regions touch.  All that fired are listed in order. -/
def check (watchpoints : Watchpoints) (memory : Memory) (regions : List Region) :
    List WatchHit × Watchpoints :=
  ((watchpoints.toList.filter (Watchpoint.isTouched regions)).filterMap
      (Watchpoint.hit? memory),
    ⟨watchpoints.toList.map fun watchpoint =>
      if watchpoint.isTouched regions then watchpoint.prime memory else watchpoint⟩)

def push (watchpoints : Watchpoints) (watchpoint : Watchpoint) : Watchpoints :=
  ⟨watchpoints.toList ++ [watchpoint]⟩

def contains (watchpoints : Watchpoints) (address : Word) : Bool :=
  watchpoints.toList.any (·.address == address)

/-- Remove every watchpoint at an address. -/
def erase (watchpoints : Watchpoints) (address : Word) : Watchpoints :=
  ⟨watchpoints.toList.filter (·.address != address)⟩

end Watchpoints
end WordMachine
