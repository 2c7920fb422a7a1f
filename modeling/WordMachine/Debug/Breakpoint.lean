import WordMachine.Isa.Register

/-!
# Breakpoints

A set of breakpoints holds at most one for each instruction number and lists
them in increasing order.  A new one goes where the smaller numbers end, which is
looked for by halving.
-/

namespace WordMachine

structure Breakpoint where
  address : Word
  enabled : Bool := true
  /-- Kept and shown, but never evaluated. -/
  condition : Option Text := none
  deriving DecidableEq

structure Breakpoints where
  /-- The breakpoints by increasing address. -/
  toList : List Breakpoint := []
  deriving DecidableEq

namespace Breakpoints

def get? (breakpoints : Breakpoints) (address : Word) : Option Breakpoint :=
  breakpoints.toList.find? (·.address == address)

/-- Whether a run stops before the instruction. -/
def isActive (breakpoints : Breakpoints) (address : Word) : Bool :=
  breakpoints.toList.any fun breakpoint => breakpoint.address == address && breakpoint.enabled

/-- Keep the breakpoints at every other address. -/
def erase (breakpoints : Breakpoints) (address : Word) : Breakpoints :=
  ⟨breakpoints.toList.filter (·.address != address)⟩

/-- Remove the breakpoints at an address, and tell whether that has left fewer. -/
def remove (breakpoints : Breakpoints) (address : Word) : Bool × Breakpoints :=
  let kept := breakpoints.erase address
  (breakpoints.toList.length != kept.toList.length, kept)

/-- Where the breakpoints below an address end, among so many from a place on.  Those behind
the middle are not looked at if it is not below, nor those in front of it if it is. -/
def partitionFrom (list : List Breakpoint) (address : Word) (low count : Nat) : Nat :=
  if count = 0 then low
  else
    match list[low + count / 2]? with
    | none => low
    | some middle =>
        if middle.address < address then
          partitionFrom list address (low + count / 2 + 1) (count - count / 2 - 1)
        else partitionFrom list address low (count / 2)
termination_by count

/-- The place in the list for a breakpoint at an address. -/
def placeFor (breakpoints : Breakpoints) (address : Word) : Nat :=
  partitionFrom breakpoints.toList address 0 breakpoints.toList.length

/-- Add a breakpoint in place of any other at its address. -/
def insert (breakpoints : Breakpoints) (breakpoint : Breakpoint) : Breakpoints :=
  let (_, others) := breakpoints.remove breakpoint.address
  let place := others.placeFor breakpoint.address
  ⟨others.toList.take place ++ breakpoint :: others.toList.drop place⟩

def ofList (list : List Breakpoint) : Breakpoints := list.foldl insert {}

end Breakpoints
end WordMachine
