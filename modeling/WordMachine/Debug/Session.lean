import WordMachine.Assembly.Resolution
import WordMachine.Debug.Breakpoint
import WordMachine.Debug.Trace
import WordMachine.Debug.Watchpoint
import WordMachine.Disassembly
import WordMachine.Machine.Execution

/-!
# Sessions

A session is one program under a debugger: the machine, what watches it, and the
history of its processor.  Beside the memory of the machine it keeps two earlier
images of it: one as of the last step, by which it sees what a step has changed,
and one as of the last state that was taken.  Each operation answers and gives
the session after it, whether it succeeds or fails.
-/

namespace WordMachine

structure Settings where
  /-- Whether a snapshot is taken after every step. -/
  trace : Bool := true
  traceCapacity : Nat := Trace.defaultCapacity
  /-- The most steps that one run may take. -/
  stepLimit : Nat := 100000
  /-- The number of steps between two looks at the host. -/
  yieldInterval : Nat := 256
  /-- Whether program output is shown as it is produced. -/
  echo : Bool := false
  deriving DecidableEq

structure Session where
  settings : Settings
  calls : Handler
  program : Option Program := none
  machine : Machine := {}
  /-- Memory after the last step. -/
  previous : Memory := Memory.zero
  /-- Memory as of the last state that was taken. -/
  reported : Memory := Memory.zero
  breakpoints : Breakpoints := {}
  watchpoints : Watchpoints := {}
  trace : Option Trace
  /-- The instructions executed since the last reset. -/
  steps : Nat := 0
  /-- Where the last run stopped at a breakpoint or cursor, until anything moves on. -/
  resumeFrom : Option Word := none

/-- Why an operation of a session did not come to its end. -/
inductive Stop
  | failed (diagnostic : Diagnostic)
  /-- The machine or its host gave up. -/
  | broken (message : String)
  deriving DecidableEq

/-- A copy of what a host sees of a session. -/
structure SessionState where
  cpu : Cpu
  /-- The source line of the next instruction. -/
  line : Option Nat
  console : List Text
  /-- What changed in memory since the last state was taken. -/
  changed : List Region
  steps : Nat
  deriving DecidableEq

namespace Session

def start (settings : Settings) (calls : Handler) : Session :=
  { settings, calls
    trace := if settings.trace then some (Trace.empty settings.traceCapacity) else none }

/-- The trace of a session that has just been reset. -/
def freshTrace (program : Option Program) (cpu : Cpu) (trace : Trace) : Trace :=
  match program with
  | some program => trace.clear.record (Snapshot.capture cpu program)
  | none => trace.clear

/-- The machine with a program loaded, or an empty one. -/
def freshMachine (program : Option Program) : Machine :=
  match program with
  | some program => Machine.ofProgram program
  | none => {}

/-- Return to the state right after loading the current program. -/
def reset (session : Session) : Session :=
  let machine := freshMachine session.program
  { session with
    machine
    previous := machine.memory
    reported := machine.memory
    watchpoints := session.watchpoints.prime machine.memory
    steps := 0
    resumeFrom := none
    trace := session.trace.map (freshTrace session.program machine.cpu) }

def load (session : Session) (program : Program) : Session :=
  { session with program := some program }.reset

/-- Assemble a source text and load it.  A faulty one leaves the session alone. -/
def assemble (session : Session) (source : Text) : Except Stop Unit × Session :=
  match WordMachine.assemble source with
  | .ok program => (.ok (), session.load program)
  | .error (.rejected rejection) => (.error (.failed rejection.diagnostic), session)
  | .error (.breakdown message) => (.error (.broken message), session)

theorem assemble_of_ok (session : Session) {source : Text} {program : Program}
    (hassemble : WordMachine.assemble source = .ok program) :
    session.assemble source = (.ok (), session.load program) := by
  simp only [assemble, hassemble]

theorem assemble_of_error (session : Session) {source : Text} {failure : AssemblyFailure}
    (hassemble : WordMachine.assemble source = .error failure) :
    ∃ stop, session.assemble source = (.error stop, session) := by
  unfold assemble
  rw [hassemble]
  cases failure with
  | rejected rejection => exact ⟨_, rfl⟩
  | breakdown message => exact ⟨_, rfl⟩

/-- Point at the instruction that failed. -/
def blame (program : Program) (cpu : Cpu) : Failure → Stop
  | .breakdown message => .broken message
  | .fault fault =>
      match program.instructionAt? cpu.instructionPointer with
      | some instruction => .failed (fault.diagnostic instruction.line instruction.column)
      | none => .failed (fault.diagnostic 0 0)

/-- Take over the machine and the host after a step, compare watchpoints and record the step. -/
def accept (session : Session) (program : Program) (machine : Machine) :
    List WatchHit × Session :=
  let changed := session.previous.diff machine.memory
  let (hits, watchpoints) := session.watchpoints.check machine.memory changed
  (hits,
    { session with
      machine
      calls := session.calls.later
      previous := session.previous.copyRegions machine.memory changed
      watchpoints
      steps := session.steps + 1
      trace := session.trace.map (·.record (Snapshot.capture machine.cpu program)) })

/-- Execute one instruction and answer the watchpoints that fired. -/
def step (session : Session) : Except Stop (List WatchHit) × Session :=
  match session.program with
  | none => (.error (.failed SessionError.noProgram.diagnostic), session)
  | some program =>
      let session := { session with resumeFrom := none }
      if session.machine.cpu.halted then (.ok [], session)
      else
        match (Machine.step session.calls.now program).run session.machine with
        | .error failure machine =>
            (.error (blame program session.machine.cpu failure),
              { session with machine, calls := session.calls.later })
        | .ok () machine =>
            let (hits, session) := session.accept program machine
            (.ok hits, session)

/-- Everything that a step of a loaded session can come to. -/
theorem step_cases {session : Session} {program : Program}
    (hprogram : session.program = some program) :
    (session.machine.cpu.halted = true ∧
      session.step = (.ok [], { session with resumeFrom := none })) ∨
    (∃ machine,
      (Machine.step session.calls.now program).run session.machine = .ok () machine ∧
        session.step =
          (.ok ({ session with resumeFrom := none }.accept program machine).1,
            ({ session with resumeFrom := none }.accept program machine).2)) ∨
    ∃ failure machine,
      (Machine.step session.calls.now program).run session.machine = .error failure machine ∧
        session.step =
          (.error (blame program session.machine.cpu failure),
            { session with resumeFrom := none, calls := session.calls.later, machine }) := by
  unfold step
  split
  next hnone =>
    rw [hprogram] at hnone
    cases hnone
  next loaded hloaded =>
    obtain rfl : program = loaded := Option.some.inj (hprogram.symm.trans hloaded)
    dsimp only
    split
    next hhalted => exact .inl ⟨hhalted, rfl⟩
    · split
      next failure machine hrun => exact .inr (.inr ⟨failure, machine, hrun, rfl⟩)
      next machine hrun => exact .inr (.inl ⟨machine, hrun, rfl⟩)

/-- Restore the processor from the previous snapshot.  Memory stays as it is. -/
def stepBack (session : Session) : Except SessionError Unit × Session :=
  if session.program.isNone then (.error .noProgram, session)
  else
    match session.trace with
    | none => (.error .traceDisabled, session)
    | some trace =>
        match trace.back with
        | (none, trace) => (.error .traceExhausted, { session with trace := some trace })
        | (some snapshot, trace) =>
            (.ok (),
              { session with
                machine := { session.machine with cpu := snapshot.cpu }
                trace := some trace
                resumeFrom := none })

def setBreakpoints (session : Session) (breakpoints : Breakpoints) : Session :=
  { session with breakpoints }

/-- Replace the watchpoints by ones that start from the present memory. -/
def setWatchpoints (session : Session) (watchpoints : Watchpoints) : Session :=
  { session with watchpoints := watchpoints.prime session.machine.memory }

def disassemble (session : Session) : Except Diagnostic (List DisassemblyLine) :=
  match session.program with
  | some program => .ok program.disassemble
  | none => .error SessionError.noProgram.diagnostic

/-- The source line of the instruction at the instruction pointer. -/
def currentLine? (session : Session) : Option Nat := do
  let program ← session.program
  let instruction ← program.instructionAt? session.machine.cpu.instructionPointer
  some instruction.line

/-- Take a state.  The next one reports what has changed since. -/
def state (session : Session) : SessionState × Session :=
  let changed := session.reported.diff session.machine.memory
  ({ cpu := session.machine.cpu
     line := session.currentLine?
     console := session.machine.console.lines
     changed
     steps := session.steps },
    { session with reported := session.reported.copyRegions session.machine.memory changed })

end Session
end WordMachine
