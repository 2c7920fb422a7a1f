import WordMachine.Proofs.FailingSteps
import WordMachine.Proofs.SessionHistory
import Mathlib.Data.List.Basic

/-!
# Stepping back is a bounded undo

The history of a session's processor is a stack.  It starts with the loaded
processor; every executed step pushes the one that comes of it, and only so many
of the latest are kept; every successful step back takes one away.  The trace,
with its cursor, its discarded future and its evicted past, comes to just that:
up to the cursor it holds the stack, and the processor is always the top of it.
-/

namespace WordMachine

/-! ## A trace as a stack -/

/-- What the trace holds up to its cursor is the stack, from the bottom up. -/
structure Trace.Holds (trace : Trace) (stack : List Cpu) : Prop where
  past : (trace.entries.toList.take stack.length).map (·.cpu) = stack.reverse
  cursor : trace.cursor = stack.length - 1
  size_le : trace.entries.size ≤ trace.capacity
  blank : stack = [] → trace.entries = #[]

namespace Trace

variable {trace : Trace} {stack : List Cpu}

theorem holds_clear (trace : Trace) : trace.clear.Holds [] where
  past := rfl
  cursor := rfl
  size_le := Nat.zero_le _
  blank _ := rfl

theorem holds_empty (capacity : Nat) : (empty capacity).Holds [] where
  past := rfl
  cursor := rfl
  size_le := Nat.zero_le _
  blank _ := rfl

theorem toList_evict (capacity : Nat) (entries : Array Snapshot)
    (hsize : entries.size ≤ capacity + 1) :
    (evict capacity entries).toList = entries.toList.drop (entries.size - capacity) := by
  unfold evict
  by_cases hfull : capacity < entries.size
  · have hone : entries.size - capacity = 1 := by omega
    rw [if_pos hfull, hone, Array.toList_extract, List.extract_eq_take_drop]
    apply List.take_of_length_le
    simp
  · have hzero : entries.size - capacity = 0 := by omega
    rw [if_neg hfull, hzero, List.drop_zero]

theorem Holds.length_le (hholds : trace.Holds stack) : stack.length ≤ trace.entries.size := by
  have hlength := congrArg List.length hholds.past
  simp only [List.length_map, List.length_take, List.length_reverse,
    Array.length_toList] at hlength
  omega

/-- Recording drops what is ahead of the cursor, so nothing but the stack is left. -/
theorem Holds.entries_record (hholds : trace.Holds stack) (snapshot : Snapshot) :
    (trace.record snapshot).entries.toList.map (·.cpu) =
      ((snapshot.cpu :: stack).take trace.capacity).reverse := by
  have hkept : (trace.entries.shrink (trace.cursor + 1)).toList.map (·.cpu) =
      stack.reverse := by
    rw [Array.toList_shrink, hholds.cursor]
    by_cases hempty : stack = []
    · rw [hholds.blank hempty, hempty]
      rfl
    · have hpositive : 0 < stack.length := List.length_pos_iff.mpr hempty
      rw [Nat.sub_add_cancel hpositive]
      exact hholds.past
  have hsize : (trace.entries.shrink (trace.cursor + 1)).size = stack.length := by
    have hlength := congrArg List.length hkept
    simpa using hlength
  have hroom : ((trace.entries.shrink (trace.cursor + 1)).push snapshot).size ≤
      trace.capacity + 1 := by
    rw [Array.size_push, hsize]
    exact Nat.succ_le_succ (Nat.le_trans hholds.length_le hholds.size_le)
  dsimp only [record]
  rw [toList_evict trace.capacity _ hroom, Array.size_push, hsize, Array.toList_push,
    List.map_drop, List.map_append, hkept, List.reverse_take, List.reverse_cons,
    List.length_cons]
  rfl

theorem Holds.size_record (hholds : trace.Holds stack) (snapshot : Snapshot) :
    (trace.record snapshot).entries.size =
      ((snapshot.cpu :: stack).take trace.capacity).length := by
  have hlength := congrArg List.length (hholds.entries_record snapshot)
  simpa only [List.length_map, List.length_reverse, Array.length_toList] using hlength

theorem Holds.record (hholds : trace.Holds stack) (hcapacity : 0 < trace.capacity)
    (snapshot : Snapshot) :
    (trace.record snapshot).Holds ((snapshot.cpu :: stack).take trace.capacity) where
  past := by
    rw [← hholds.size_record, ← Array.length_toList, List.take_length]
    exact hholds.entries_record snapshot
  cursor := by
    rw [← hholds.size_record]
    rfl
  size_le := by
    rw [hholds.size_record]
    exact List.length_take_le _ _
  blank hempty := by
    rw [List.take_eq_nil_iff] at hempty
    rcases hempty with hzero | hnil
    · omega
    · cases hnil

/-- With one processor on the stack there is nothing to go back to. -/
theorem Holds.back_of_length_lt (hholds : trace.Holds stack) (hlength : stack.length < 2) :
    trace.back = (none, trace) := by
  have hcursor : trace.cursor = 0 := by
    rw [hholds.cursor]
    omega
  rw [back, if_pos hcursor]

theorem Holds.back {top next : Cpu} {rest : List Cpu}
    (hholds : trace.Holds (top :: next :: rest)) :
    ∃ snapshot earlier,
      trace.back = (some snapshot, earlier) ∧ snapshot.cpu = next ∧
        earlier.capacity = trace.capacity ∧ earlier.Holds (next :: rest) := by
  -- what is ahead of the cursor stays in the entries, so only the part up to it is read
  have hcursor : trace.cursor = rest.length + 1 := hholds.cursor
  have hpast := hholds.past
  rw [List.length_cons, List.reverse_cons] at hpast
  have hbelow : (trace.entries.toList.take (next :: rest).length).map (·.cpu) =
      (next :: rest).reverse := by
    have htake := congrArg (List.take (next :: rest).length) hpast
    have hreverse : (next :: rest).length = (next :: rest).reverse.length :=
      List.length_reverse.symm
    rw [← List.map_take, List.take_take, Nat.min_eq_left (Nat.le_succ _)] at htake
    rw [htake, hreverse, List.take_left]
  have hsnapshot : trace.entries[rest.length]?.map (·.cpu) = some next := by
    have hget := congrArg (·[rest.length]?) hbelow
    simp only [List.getElem?_map, List.length_cons, List.getElem?_take_of_succ,
      Array.getElem?_toList, List.reverse_cons] at hget
    rw [hget, ← List.length_reverse, List.getElem?_concat_length]
  obtain ⟨snapshot, hentry, hcpu⟩ := Option.map_eq_some_iff.mp hsnapshot
  refine ⟨snapshot, { trace with cursor := rest.length }, ?_, hcpu, rfl, ?_⟩
  · have hpositive : ¬trace.cursor = 0 := by omega
    rw [Trace.back, if_neg hpositive, hcursor]
    dsimp only
    rw [Nat.add_sub_cancel, hentry]
  · exact ⟨hbelow, rfl, hholds.size_le, nofun⟩

end Trace

/-! ## The stack of a session -/

namespace Session

/-- The stack after a deed. -/
def remember (session : Session) (capacity : Nat) (stack : List Cpu) : Deed → List Cpu
  | .load program => [Cpu.ofProgram program]
  | .reset =>
      match session.program with
      | some program => [Cpu.ofProgram program]
      | none => []
  | .step =>
      if session.machine.cpu.halted then stack
      else
        match session.step with
        | (.ok _, after) => (after.machine.cpu :: stack).take capacity
        | (.error _, _) => stack
  | .stepBack =>
      match session.stepBack.1 with
      | .ok () => stack.tail
      | .error _ => stack
  | .setBreakpoints _ | .setWatchpoints _ | .state | .rehost _ | .mark _ => stack

/-- The stack after deeds that follow one another. -/
def undoStack (session : Session) (capacity : Nat) (stack : List Cpu) : List Deed → List Cpu
  | [] => stack
  | deed :: deeds =>
      (session.perform deed).undoStack capacity (session.remember capacity stack deed) deeds

/-- The trace of the session holds the stack, and its processor is the top.  Its host leaves the
processor alone where it fails. -/
structure Recalls (session : Session) (capacity : Nat) (stack : List Cpu) : Prop where
  spares : session.calls.Spares fun _ => True
  trace : ∃ trace, session.trace = some trace ∧ trace.capacity = capacity ∧ trace.Holds stack
  top : ∀ program, session.program = some program →
    stack.head? = some session.machine.cpu
  unloaded : session.program = none → stack = []

variable {session session' : Session} {program : Program} {capacity : Nat} {stack : List Cpu}

theorem Recalls.of_eq (hrecalls : session.Recalls capacity stack)
    (hspares : session'.calls.Spares fun _ => True) (htrace : session'.trace = session.trace)
    (hprogram : session'.program = session.program)
    (hcpu : session'.machine.cpu = session.machine.cpu) :
    session'.Recalls capacity stack where
  spares := hspares
  trace := by
    rw [htrace]
    exact hrecalls.trace
  top := by
    rw [hprogram, hcpu]
    exact hrecalls.top
  unloaded := by
    rw [hprogram]
    exact hrecalls.unloaded

theorem Recalls.unmark (hrecalls : session.Recalls capacity stack) :
    { session with resumeFrom := none : Session }.Recalls capacity stack :=
  hrecalls.of_eq hrecalls.spares rfl rfl rfl

theorem recalls_start (settings : Settings) (htrace : settings.trace = true) :
    (start settings .standard).Recalls (max settings.traceCapacity 1) [] where
  spares := Handler.standard_spares
  trace := by
    refine ⟨Trace.empty settings.traceCapacity, ?_, rfl, Trace.holds_empty _⟩
    rw [start, if_pos htrace]
  top := nofun
  unloaded _ := rfl

theorem recalls_reset (session : Session) (stack : List Cpu) {trace : Trace}
    (hspares : session.calls.Spares fun _ => True) (htrace : session.trace = some trace)
    (hcapacity : 0 < trace.capacity) :
    session.reset.Recalls trace.capacity
      (session.remember trace.capacity stack .reset) := by
  have hclear : trace.clear.Holds [] := trace.holds_clear
  rw [remember]
  cases hprogram : session.program with
  | none =>
      refine ⟨hspares, ⟨trace.clear, ?_, rfl, hclear⟩, ?_, fun _ => rfl⟩
      · simp only [reset, htrace, hprogram, Option.map_some, freshTrace]
      · intro program hloaded
        simp only [reset, hprogram] at hloaded
        cases hloaded
  | some program =>
      let snapshot := Snapshot.capture (Cpu.ofProgram program) program
      have hrecord : (trace.clear.record snapshot).Holds ([snapshot.cpu].take trace.capacity) :=
        hclear.record hcapacity snapshot
      have hfits : [snapshot.cpu].take trace.capacity = [snapshot.cpu] :=
        List.take_of_length_le hcapacity
      rw [hfits] at hrecord
      refine ⟨hspares, ⟨trace.clear.record snapshot, ?_, rfl, hrecord⟩, ?_, ?_⟩
      · simp only [reset, htrace, hprogram, Option.map_some, freshTrace, freshMachine]
        rfl
      · intro _ _
        simp only [reset, hprogram, freshMachine]
        rfl
      · intro hnone
        simp only [reset, hprogram] at hnone
        cases hnone

theorem step_of_halted (hprogram : session.program = some program)
    (hhalted : session.machine.cpu.halted = true) :
    session.step = (.ok [], { session with resumeFrom := none }) := by
  unfold step
  rw [hprogram]
  dsimp only
  rw [if_pos hhalted]

theorem Recalls.trace_accept (hrecalls : session.Recalls capacity stack)
    (program : Program) (machine : Machine) (hcapacity : 0 < capacity) :
    ∃ trace,
      (session.accept program machine).2.trace = some trace ∧ trace.capacity = capacity ∧
        trace.Holds ((machine.cpu :: stack).take capacity) ∧
        trace.entries.toList.map (·.cpu) = ((machine.cpu :: stack).take capacity).reverse ∧
        trace.cursor + 1 = trace.entries.size := by
  obtain ⟨trace, htrace, rfl, hholds⟩ := hrecalls.trace
  let snapshot := Snapshot.capture machine.cpu program
  have hrecord := hholds.record hcapacity snapshot
  have hsize := hholds.size_record snapshot
  have hpositive : 0 < ((snapshot.cpu :: stack).take trace.capacity).length := by
    rw [List.length_take, List.length_cons]
    omega
  refine ⟨trace.record snapshot, ?_, rfl, hrecord, hholds.entries_record snapshot, ?_⟩
  · simp only [accept, htrace, Option.map_some]
    rfl
  · rw [hrecord.cursor, hsize]
    omega

theorem Recalls.step (hrecalls : session.Recalls capacity stack) (hcapacity : 0 < capacity) :
    session.step.2.Recalls capacity (session.remember capacity stack .step) := by
  rw [remember]
  cases hprogram : session.program with
  | none =>
      have hstep : session.step =
          (.error (.failed SessionError.noProgram.diagnostic), session) := by
        rw [Session.step, hprogram]
      rw [hstep, ite_self]
      exact hrecalls
  | some program =>
      by_cases hhalted : session.machine.cpu.halted = true
      · rw [if_pos hhalted, step_of_halted hprogram hhalted]
        exact hrecalls.unmark
      · rw [if_neg hhalted]
        rcases step_cases hprogram with
          ⟨hhalted', -⟩ | ⟨machine, -, haccepted⟩ | ⟨failure, machine, herror, hfailed⟩
        · exact absurd hhalted' hhalted
        · obtain ⟨trace, htrace, hsize, hholds, -, -⟩ :=
            hrecalls.unmark.trace_accept program machine hcapacity
          rw [haccepted]
          refine ⟨hrecalls.spares.later, ⟨trace, htrace, hsize, hholds⟩, ?_, ?_⟩
          · intro _ _
            rw [List.head?_take, if_neg (Nat.ne_of_gt hcapacity)]
            rfl
          · intro hnone
            exact absurd (hprogram.symm.trans hnone) nofun
        · rw [hfailed]
          have hspares : Execution.Spares (fun _ => True)
              (Machine.step session.calls.now program) :=
            Machine.step_spares program (hrecalls.spares 0)
          have hmachine := hspares session.machine failure machine trivial herror
          exact hrecalls.of_eq hrecalls.spares.later rfl rfl (congrArg Machine.cpu hmachine)

/-- What had been undone is gone once a step is executed. -/
theorem Recalls.trace_step {hits : List WatchHit}
    (hrecalls : session.Recalls capacity stack) (hcapacity : 0 < capacity)
    (hprogram : session.program = some program) (hrunning : session.machine.cpu.halted = false)
    (hstep : session.step.1 = .ok hits) :
    ∃ trace,
      session.step.2.trace = some trace ∧ trace.cursor + 1 = trace.entries.size ∧
        trace.entries.toList.map (·.cpu) =
          ((session.step.2.machine.cpu :: stack).take capacity).reverse := by
  rcases step_cases hprogram with
    ⟨hhalted, -⟩ | ⟨machine, -, haccepted⟩ | ⟨failure, machine, -, hfailed⟩
  · rw [hrunning] at hhalted
    cases hhalted
  · obtain ⟨trace, htraced, -, -, hentries, hcursor⟩ :=
      hrecalls.unmark.trace_accept program machine hcapacity
    rw [haccepted]
    exact ⟨trace, htraced, hcursor, hentries⟩
  · rw [hfailed] at hstep
    cases hstep

theorem Recalls.stepBack_of_length_lt (hrecalls : session.Recalls capacity stack)
    (hprogram : session.program = some program) (hlength : stack.length < 2) :
    session.stepBack = (.error .traceExhausted, session) := by
  obtain ⟨trace, htrace, -, hholds⟩ := hrecalls.trace
  have hback := hholds.back_of_length_lt hlength
  have hloaded : session.program.isNone = false := by simp [hprogram]
  have hsame : { session with trace := some trace : Session } = session := by rw [← htrace]
  simp only [stepBack, hloaded, Bool.false_eq_true, if_false, htrace, hback, hsame]

theorem Recalls.stepBack_of_cons {top next : Cpu} {rest : List Cpu}
    (hrecalls : session.Recalls capacity (top :: next :: rest))
    (hprogram : session.program = some program) :
    ∃ trace,
      session.stepBack =
          (.ok (),
            { session with
              machine := { session.machine with cpu := next }
              trace := some trace
              resumeFrom := none }) ∧
        trace.capacity = capacity ∧ trace.Holds (next :: rest) := by
  obtain ⟨trace, htrace, hsize, hholds⟩ := hrecalls.trace
  obtain ⟨snapshot, earlier, hback, rfl, hearlier, hbelow⟩ := hholds.back
  refine ⟨earlier, ?_, hearlier.trans hsize, hbelow⟩
  have hloaded : session.program.isNone = false := by simp [hprogram]
  simp only [stepBack, hloaded, Bool.false_eq_true, if_false, htrace, hback]

theorem Recalls.stepBack (hrecalls : session.Recalls capacity stack) :
    session.stepBack.2.Recalls capacity (session.remember capacity stack .stepBack) := by
  rw [remember]
  cases hprogram : session.program with
  | none =>
      have hback : session.stepBack = (.error .noProgram, session) := by
        rw [Session.stepBack, hprogram, if_pos (by simp)]
      rw [hback]
      exact hrecalls
  | some program =>
      by_cases hlength : stack.length < 2
      · rw [hrecalls.stepBack_of_length_lt hprogram hlength]
        exact hrecalls
      · match stack, hlength with
        | [], hlength => exact absurd (by simp) hlength
        | [_], hlength => exact absurd (by simp) hlength
        | top :: next :: rest, _ =>
            obtain ⟨trace, hback, hsize, hholds⟩ := hrecalls.stepBack_of_cons hprogram
            rw [hback]
            refine ⟨hrecalls.spares, ⟨trace, rfl, hsize, hholds⟩, fun _ _ => rfl, ?_⟩
            intro hnone
            exact absurd (hprogram.symm.trans hnone) nofun

theorem Recalls.perform (hrecalls : session.Recalls capacity stack) (hcapacity : 0 < capacity)
    (deed : Deed) (hhost : ∀ calls, deed = .rehost calls → calls.Spares fun _ => True) :
    (session.perform deed).Recalls capacity (session.remember capacity stack deed) := by
  cases deed with
  | load program =>
      obtain ⟨trace, htrace, rfl, -⟩ := hrecalls.trace
      exact recalls_reset { session with program := some program } stack hrecalls.spares
        htrace hcapacity
  | reset =>
      obtain ⟨trace, htrace, rfl, -⟩ := hrecalls.trace
      exact recalls_reset session stack hrecalls.spares htrace hcapacity
  | step => exact hrecalls.step hcapacity
  | stepBack => exact hrecalls.stepBack
  | rehost calls => exact hrecalls.of_eq (hhost calls rfl) rfl rfl rfl
  | setBreakpoints | setWatchpoints | state | mark =>
      exact hrecalls.of_eq hrecalls.spares rfl rfl rfl

theorem Recalls.performAll (hrecalls : session.Recalls capacity stack)
    (hcapacity : 0 < capacity) (deeds : List Deed)
    (hhosts : ∀ calls, Deed.rehost calls ∈ deeds → calls.Spares fun _ => True) :
    (session.performAll deeds).Recalls capacity (session.undoStack capacity stack deeds) := by
  induction deeds generalizing session stack with
  | nil => exact hrecalls
  | cons deed deeds ih =>
      have hdeed : ∀ calls, deed = .rehost calls → calls.Spares fun _ => True := by
        rintro calls rfl
        exact hhosts calls List.mem_cons_self
      have hlater := fun calls hmem => hhosts calls (List.mem_cons_of_mem deed hmem)
      exact ih (hrecalls.perform hcapacity deed hdeed) hlater

end Session

/-- Whatever has been done to a session that keeps a trace, by hosts that change nothing before
they fail, its processor is the top of the stack.  A step back takes the top away and touches
nothing but the processor and the trace; it gives up, and touches nothing at all, if nothing is
below.  A step leaves just the stack in the trace, so what had been undone is gone. -/
theorem cpu_follows_undo_stack
    (settings : Settings) (operations : List Operation) (session : Session) (program : Program)
    (htrace : settings.trace = true)
    (hhosts : ∀ calls,
      Deed.rehost calls ∈ (Session.start settings .standard).allDeeds operations →
        calls.Spares fun _ => True)
    (hsession : (Session.start settings .standard).operateAll operations = session)
    (hprogram : session.program = some program) :
    let start := Session.start settings .standard
    let capacity := max settings.traceCapacity 1
    let stack := start.undoStack capacity [] (start.allDeeds operations)
    stack.head? = some session.machine.cpu ∧
      (∃ trace,
        session.trace = some trace ∧ trace.entries.size ≤ capacity ∧
          trace.cursor < trace.entries.size ∧
          (trace.entries.toList.take stack.length).map (·.cpu) = stack.reverse) ∧
      (2 ≤ stack.length →
        ∃ cpu trace,
          stack.tail.head? = some cpu ∧
            session.stepBack =
              (.ok (),
                { session with
                  machine := { session.machine with cpu }
                  trace := some trace
                  resumeFrom := none })) ∧
      (stack.length < 2 → session.stepBack = (.error .traceExhausted, session)) ∧
      ∀ hits,
        session.machine.cpu.halted = false → session.step.1 = .ok hits →
          ∃ trace,
            session.step.2.trace = some trace ∧ trace.cursor + 1 = trace.entries.size ∧
              trace.entries.toList.map (·.cpu) =
                ((session.step.2.machine.cpu :: stack).take capacity).reverse := by
  intro start capacity stack
  have hcapacity : 0 < capacity := Nat.lt_of_lt_of_le Nat.zero_lt_one (Nat.le_max_right _ _)
  have hrecalls : session.Recalls capacity stack := by
    rw [← hsession, ← Session.performAll_allDeeds]
    exact (Session.recalls_start settings htrace).performAll hcapacity _ hhosts
  have htop : stack.head? = some session.machine.cpu := hrecalls.top program hprogram
  have hpositive : 0 < stack.length := by
    cases hstack : stack with
    | nil => rw [hstack] at htop; cases htop
    | cons top rest => exact Nat.succ_pos _
  refine ⟨htop, ?_, ?_, ?_, ?_⟩
  · obtain ⟨trace, htraced, hsize, hholds⟩ := hrecalls.trace
    have hlength := hholds.length_le
    have hcursor := hholds.cursor
    exact ⟨trace, htraced, hsize ▸ hholds.size_le, by omega, hholds.past⟩
  · intro hlength
    match stack, hlength with
    | top :: next :: rest, _ =>
        obtain ⟨trace, hback, -, -⟩ := hrecalls.stepBack_of_cons hprogram
        exact ⟨next, trace, rfl, hback⟩
  · exact hrecalls.stepBack_of_length_lt hprogram
  · intro hits hrunning hstep
    exact hrecalls.trace_step hcapacity hprogram hrunning hstep

/-- Count for ever. -/
def Program.endless : Program where
  instructions :=
    #[{ opcode := .inc, operands := [.register .basePointer],
        line := 1, column := 1, source := "INC BP".toList, address := 0 },
      { opcode := .jmp, operands := [.immediate 0],
        line := 2, column := 1, source := "JMP 0".toList, address := 1 }]
  symbols := {}
  data := #[]
  textStart := 0
  dataStart := 0

/-- Of four states the oldest is given up, and two steps back reach what is now the oldest. -/
theorem cpu_follows_undo_stack_endless :
    let settings : Settings := { traceCapacity := 3 }
    let start := Session.start settings .standard
    let operations : List Operation := [.load .endless, .step, .step, .step, .stepBack]
    let further : List Operation := operations ++ [.stepBack]
    let session := start.operateAll operations
    let undone := start.operateAll further
    session.stepBack.2.machine =
        { session.machine with cpu := { basePointer := 1, instructionPointer := 1 } } ∧
      undone.stepBack = (.error .traceExhausted, undone) := by
  intro settings start operations further session undone
  have hundo := cpu_follows_undo_stack settings operations session .endless
    rfl (by simp [operations, Session.allDeeds, Session.deeds]) rfl (by decide +kernel)
  have hlast := cpu_follows_undo_stack settings further undone .endless
    rfl (by simp [further, operations, Session.allDeeds, Session.deeds]) rfl (by decide +kernel)
  refine ⟨?_, hlast.2.2.2.1 (by decide +kernel)⟩
  obtain ⟨cpu, trace, hcpu, hback⟩ := hundo.2.2.1 (by decide +kernel)
  have hbelow : (start.undoStack (max settings.traceCapacity 1) []
      (start.allDeeds operations)).tail.head? =
        some { basePointer := 1, instructionPointer := 1 } := by
    decide +kernel
  rw [hbelow] at hcpu
  cases hcpu
  exact congrArg (·.2.machine) hback

end WordMachine
