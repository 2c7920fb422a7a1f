import WordMachine.Machine.Console
import WordMachine.Machine.Cpu
import WordMachine.Machine.Memory
import WordMachine.Text.Utf8

/-!
# System calls

The machine leaves the meaning of `SYS` to its host.  A host answers a call by
changing the processor and the console, and may read memory; it may refuse the
call, or break down.  `standard` is the usual table: stop, print a number, print
a string, print a character, end the line.  A host that remembers what it has been
asked is told by what it does at each step.
-/

namespace WordMachine

/-- The part of a machine that a host may change. -/
structure HostView where
  cpu : Cpu
  console : Console

/-- What a host does for each call number.  Where it fails, what it has changed stays changed. -/
abbrev SystemCalls := (number : Word) → Memory → EStateM Failure HostView Unit

namespace SystemCalls

open Text

/-- The longest string that is printed when no terminator is found. -/
def maxString : Nat := 4096

/-- The bytes of the zero-terminated string at an address. -/
def stringAt (memory : Memory) (address : Word) : List UInt8 :=
  (memory.slice address.toNat maxString).takeWhile (· != 0)

/-- The argument and result register of a call. -/
def argument (cpu : Cpu) : Word := cpu.get (.general 0)

/-- Write what a function makes of the argument. -/
def print (text : Word → Text) : EStateM Failure HostView Unit :=
  modify fun view =>
    { view with console := view.console.write (text (argument view.cpu)) }

def standard : SystemCalls := fun number memory =>
  match number.toNat with
  | 0 => modify fun view => { view with cpu := { view.cpu with halted := true } }
  | 1 => print fun value => signed value.toInt
  | 2 => print fun address => ofUtf8 (stringAt memory address)
  | 3 => print fun value => [Char.ofNat (value.toNat % 256)]
  | 4 => modify fun view => { view with console := view.console.newline }
  | _ => throw (.fault (.unknownCall number))

end SystemCalls

/-- What a host does at each step from now on.  It may have a state of its own, by which it comes
to answer calls in another way than before. -/
abbrev Handler := (step : Nat) → SystemCalls

namespace Handler

/-- What the host does at the next step. -/
def now (handler : Handler) : SystemCalls := handler 0

/-- The host as it is after the next step. -/
def later (handler : Handler) : Handler := fun step => handler (step + 1)

/-- A host without a state. -/
def always (calls : SystemCalls) : Handler := fun _ => calls

def standard : Handler := always .standard

end Handler
end WordMachine
