import WordMachine.Machine.Cpu

/-!
# Trace

A bounded history of processor states with a cursor at the present one.
Recording after the cursor has moved back discards what was ahead of it, and the
oldest entry gives way when there are too many.
-/

namespace WordMachine

/-- A processor state and the instruction that it is about to execute.  Memory is not kept. -/
structure Snapshot where
  cpu : Cpu
  instruction : Option Instruction
  deriving DecidableEq

def Snapshot.capture (cpu : Cpu) (program : Program) : Snapshot :=
  { cpu, instruction := program.instructionAt? cpu.instructionPointer }

structure Trace where
  /-- The snapshots from oldest to newest. -/
  entries : Array Snapshot := #[]
  capacity : Nat
  cursor : Nat := 0
  deriving DecidableEq

namespace Trace

/-- The number of snapshots that a trace holds unless it is told otherwise. -/
def defaultCapacity : Nat := 1024

/-- An empty trace; it holds one snapshot at least. -/
def empty (capacity : Nat) : Trace := { capacity := max capacity 1 }

def clear (trace : Trace) : Trace := { trace with entries := #[], cursor := 0 }

/-- Drop the oldest snapshot if there are more than fit. -/
def evict (capacity : Nat) (entries : Array Snapshot) : Array Snapshot :=
  if capacity < entries.size then entries.extract 1 entries.size else entries

def record (trace : Trace) (snapshot : Snapshot) : Trace :=
  let entries := evict trace.capacity ((trace.entries.shrink (trace.cursor + 1)).push snapshot)
  { trace with entries, cursor := entries.size - 1 }

def current? (trace : Trace) : Option Snapshot := trace.entries[trace.cursor]?

/-- Move the cursor one snapshot back, if there is one before it. -/
def back (trace : Trace) : Option Snapshot × Trace :=
  if trace.cursor = 0 then (none, trace)
  else
    let cursor := trace.cursor - 1
    (trace.entries[cursor]?, { trace with cursor })

end Trace
end WordMachine
