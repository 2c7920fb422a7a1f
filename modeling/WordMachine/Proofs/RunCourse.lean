import WordMachine.Debug.Run

/-!
# Where a run stops

A run is compared with its course: the steps it would take, and the looks it
would have its host take, if nothing stopped it.  At every number of steps there
may be something that stops a run, either right after the last step or before
the next one.  The main result says that a run follows its course up to the first
place where something does, and comes out as that says.
-/

namespace WordMachine

structure Course (ε : Type) where
  plan : RunPlan
  host : RunHost ε
  /-- Whether the run has to leave the place where it starts before it stops there. -/
  resuming : Bool
  start : Session

/-- A session on its course, with what the host has seen of it, latest first. -/
structure Stage (ε : Type) where
  session : Session
  observed : List ε

variable {ε : Type}

/-- Whether a run was stopped right after a step, before its host was looked at again. -/
def Run.endsOnStep (run : Run ε) : Bool :=
  match run.outcome with
  | .error _ | .ok (.watchpoint _) | .ok .cancelled => true
  | .ok _ => false

namespace Course

def ofRun (session : Session) (cursor : Option Word) (limit : Option Nat) (host : RunHost ε) :
    Course ε :=
  { plan := session.planFor cursor limit
    host
    resuming := session.isResuming
    start := { session with resumeFrom := none } }

/-- The session after so many steps, whatever there was to stop it. -/
def stage (course : Course ε) : (count : Nat) → Stage ε
  | 0 => ⟨course.start, []⟩
  | count + 1 =>
      let stage := course.stage count
      let session := stage.session.step.2
      match course.plan.lookAfter? (count + 1) with
      | none => ⟨session, stage.observed⟩
      | some look =>
          let (seen, session) := course.host.observe look session
          ⟨session, seen :: stage.observed⟩

def isCancelled (course : Course ε) (count : Nat) : Bool :=
  (course.plan.lookAfter? count).any course.host.cancelled

/-- What stops a run after its step of this number, by what the step has answered. -/
def stopAfter? (course : Course ε) (count : Nat) :
    Except Stop (List WatchHit) → Option (Except Stop PauseReason)
  | .error stop => some (.error stop)
  | .ok (hit :: hits) => some (.ok (.watchpoint (hit :: hits)))
  | .ok [] => if course.isCancelled count then some (.ok .cancelled) else none

/-- Whether the run may stop at a cursor or breakpoint after so many steps. -/
def isFree (course : Course ε) (count : Nat) : Bool :=
  decide (1 ≤ count) || !course.resuming

/-- What stops a run before it goes on from where it stands after so many steps. -/
def stopBefore? (course : Course ε) (count : Nat) (session : Session) : Option PauseReason :=
  let address := session.machine.cpu.instructionPointer
  if session.machine.cpu.halted then some .halted
  else if course.isFree count ∧ course.plan.cursor = some address then some (.cursor address)
  else if course.isFree count ∧ session.breakpoints.isActive address then
    some (.breakpoint address)
  else if course.plan.limit ≤ count then some (.stepLimit count)
  else none

def outAfter? (course : Course ε) : (count : Nat) → Option (Run ε)
  | 0 => none
  | count + 1 =>
      let stage := course.stage count
      (course.stopAfter? (count + 1) stage.session.step.1).map
        (⟨·, stage.session.step.2, stage.observed⟩)

def outBefore? (course : Course ε) (count : Nat) : Option (Run ε) :=
  let stage := course.stage count
  (course.stopBefore? count stage.session).map
    fun reason => ⟨.ok reason, stage.session.markPause reason, stage.observed⟩

/-- How a run comes out that has taken so many steps, if anything stops it there. -/
def out? (course : Course ε) (count : Nat) : Option (Run ε) :=
  (course.outAfter? count).or (course.outBefore? count)

/-! ## One turn on the course -/

variable {course : Course ε} {count : Nat}

@[simp]
theorem isFree_zero : course.isFree 0 = !course.resuming := by
  simp [isFree]

@[simp]
theorem isFree_succ : course.isFree (count + 1) = true := by
  simp [isFree]

theorem stopBefore?_eq (session : Session) :
    course.stopBefore? count session =
      (session.pauseHere? course.plan.cursor (!course.isFree count)).or
        (if course.plan.limit ≤ count then some (.stepLimit count) else none) := by
  unfold stopBefore? Session.pauseHere?
  dsimp only
  split
  · rfl
  · cases course.isFree count with
    | false => simp
    | true =>
        simp only [true_and, Bool.not_true, Bool.false_eq_true, if_false]
        split
        · rfl
        · split
          · rfl
          · rfl

theorem outAfter?_of_error {stop : Stop}
    (hanswer : (course.stage count).session.step.1 = .error stop) :
    course.outAfter? (count + 1) =
      some ⟨.error stop, (course.stage count).session.step.2, (course.stage count).observed⟩ := by
  simp only [outAfter?, hanswer, stopAfter?, Option.map_some]

theorem outAfter?_of_hits {hit : WatchHit} {hits : List WatchHit}
    (hanswer : (course.stage count).session.step.1 = .ok (hit :: hits)) :
    course.outAfter? (count + 1) =
      some ⟨.ok (.watchpoint (hit :: hits)), (course.stage count).session.step.2,
        (course.stage count).observed⟩ := by
  simp only [outAfter?, hanswer, stopAfter?, Option.map_some]

theorem outAfter?_of_quiet
    (hanswer : (course.stage count).session.step.1 = .ok []) :
    course.outAfter? (count + 1) =
      if course.isCancelled (count + 1) then
        some ⟨.ok .cancelled, (course.stage count).session.step.2,
          (course.stage count).observed⟩
      else none := by
  simp only [outAfter?, hanswer, stopAfter?]
  split
  · rfl
  · rfl

theorem stage_succ_of_no_look
    (hlook : course.plan.lookAfter? (count + 1) = none) :
    course.stage (count + 1) =
      ⟨(course.stage count).session.step.2, (course.stage count).observed⟩ := by
  rw [stage, hlook]

theorem stage_succ_of_look {look : Nat}
    (hlook : course.plan.lookAfter? (count + 1) = some look) :
    course.stage (count + 1) =
      ⟨(course.host.observe look (course.stage count).session.step.2).2,
        (course.host.observe look (course.stage count).session.step.2).1 ::
          (course.stage count).observed⟩ := by
  rw [stage, hlook]

theorem isCancelled_of_look {look : Nat}
    (hlook : course.plan.lookAfter? (count + 1) = some look) :
    course.isCancelled (count + 1) = course.host.cancelled look := by
  rw [isCancelled, hlook, Option.any_some]

/-! ## What is left of a run -/

def rest (course : Course ε) (count remaining : Nat) : Run ε :=
  Session.runFrom course.host course.plan remaining (!course.isFree count)
    (course.stage count).session (course.stage count).observed

variable {remaining : Nat} {run : Run ε}

theorem exists_outBefore?_of_limit_le
    (course : Course ε) (count : Nat) (hlimit : course.plan.limit ≤ count) :
    ∃ run, course.outBefore? count = some run := by
  rw [outBefore?, stopBefore?_eq, if_pos hlimit]
  cases (course.stage count).session.pauseHere? course.plan.cursor (!course.isFree count) with
  | none => exact ⟨_, rfl⟩
  | some reason => exact ⟨_, rfl⟩

theorem pauseHere?_eq_none_of_outBefore?
    (hbefore : course.outBefore? count = none) :
    (course.stage count).session.pauseHere? course.plan.cursor (!course.isFree count) =
      none := by
  rw [outBefore?, stopBefore?_eq, Option.map_eq_none_iff, Option.or_eq_none_iff] at hbefore
  exact hbefore.1

theorem rest_eq_of_outBefore?
    (hcount : count + remaining = course.plan.limit)
    (hbefore : course.outBefore? count = some run) :
    course.rest count remaining = run := by
  rw [outBefore?, stopBefore?_eq] at hbefore
  cases remaining with
  | zero =>
      have hlimit : course.plan.limit = count := by omega
      rw [rest, Session.runFrom, Session.runOut]
      rw [hlimit, if_pos (Nat.le_refl count)] at hbefore
      cases hpause : (course.stage count).session.pauseHere? course.plan.cursor
          (!course.isFree count) with
      | none =>
          rw [hpause] at hbefore
          rw [hlimit]
          exact Option.some.inj hbefore
      | some reason =>
          rw [hpause] at hbefore
          exact Option.some.inj hbefore
  | succ remaining =>
      rw [if_neg (by omega), Option.or_none] at hbefore
      cases hpause : (course.stage count).session.pauseHere? course.plan.cursor
          (!course.isFree count) with
      | none =>
          rw [hpause] at hbefore
          cases hbefore
      | some reason =>
          rw [hpause] at hbefore
          rw [rest, Session.runFrom, Session.turn, hpause]
          exact Option.some.inj hbefore

/-- What is left is one step, and then either what stops the run after it or the rest. -/
theorem rest_succ
    (hcount : count + (remaining + 1) = course.plan.limit)
    (hbefore : course.outBefore? count = none) :
    course.rest count (remaining + 1) =
      (course.outAfter? (count + 1)).getD (course.rest (count + 1) remaining) := by
  have hlook : course.plan.look? remaining = course.plan.lookAfter? (count + 1) := by
    rw [RunPlan.look?]
    congr 1
    omega
  have hpause := pauseHere?_eq_none_of_outBefore? hbefore
  rw [rest, Session.runFrom]
  rcases hstep : (course.stage count).session.step with ⟨stop | (_ | ⟨hit, hits⟩), session⟩
  · have hturn : (course.stage count).session.turn course.plan (!course.isFree count) =
        (.over (.error stop), session) := by
      simp only [Session.turn, hpause, hstep]
    rw [hturn, outAfter?_of_error (congrArg Prod.fst hstep), hstep, Option.getD_some]
  · have hturn : (course.stage count).session.turn course.plan (!course.isFree count) =
        (.stepped, session) := by
      simp only [Session.turn, hpause, hstep]
    rw [hturn, outAfter?_of_quiet (congrArg Prod.fst hstep), hstep, hlook]
    dsimp only
    cases hdue : course.plan.lookAfter? (count + 1) with
    | none =>
        rw [isCancelled, hdue, rest, stage_succ_of_no_look hdue, hstep, isFree_succ]
        simp only [Option.any_none, Bool.false_eq_true, if_false, Option.getD_none, Bool.not_true]
    | some look =>
        rw [isCancelled_of_look hdue, rest, stage_succ_of_look hdue, hstep, isFree_succ]
        cases hcancelled : course.host.cancelled look with
        | false =>
            simp only [hcancelled, Bool.false_eq_true, if_false, Option.getD_none, Bool.not_true]
        | true => simp only [hcancelled, if_true, Option.getD_some]
  · have hturn : (course.stage count).session.turn course.plan (!course.isFree count) =
        (.over (.ok (.watchpoint (hit :: hits))), session) := by
      simp only [Session.turn, hpause, hstep]
    rw [hturn, outAfter?_of_hits (congrArg Prod.fst hstep), hstep, Option.getD_some]

/-- From any stage that nothing has stopped the run at, it goes on to the first stop. -/
theorem exists_out?_eq_rest
    (hcount : count + remaining = course.plan.limit)
    (hafter : course.outAfter? count = none) :
    ∃ last, last ≤ course.plan.limit ∧
      (∀ middle, count ≤ middle → middle < last → course.out? middle = none) ∧
        course.out? last = some (course.rest count remaining) := by
  -- on the steps that are left; the stage goes up as they go down
  induction remaining generalizing count with
  | zero =>
      obtain ⟨run, hbefore⟩ := course.exists_outBefore?_of_limit_le count (by omega)
      refine ⟨count, by omega, fun middle hle hlt => by omega, ?_⟩
      rw [out?, hafter, Option.none_or, hbefore, rest_eq_of_outBefore? hcount hbefore]
  | succ remaining ih =>
      cases hbefore : course.outBefore? count with
      | some run =>
          refine ⟨count, by omega, fun middle hle hlt => by omega, ?_⟩
          rw [out?, hafter, Option.none_or, hbefore, rest_eq_of_outBefore? hcount hbefore]
      | none =>
          have hhere : course.out? count = none := by
            rw [out?, hafter, Option.none_or, hbefore]
          have hrest := rest_succ hcount hbefore
          cases hnext : course.outAfter? (count + 1) with
          | some run =>
              refine ⟨count + 1, by omega, ?_, ?_⟩
              · intro middle hle hlt
                obtain rfl : middle = count := by omega
                exact hhere
              · rw [out?, hnext, Option.some_or, hrest, hnext, Option.getD_some]
          | none =>
              obtain ⟨last, hlast, hnone, hout⟩ := ih (by omega) hnext
              refine ⟨last, hlast, ?_, ?_⟩
              · intro middle hle hlt
                by_cases hmiddle : middle = count
                · rw [hmiddle]
                  exact hhere
                · exact hnone middle (by omega) hlt
              · rw [hout, hrest, hnext, Option.getD_none]

/-! ## Looks at the host -/

theorem length_observed_stage
    (course : Course ε) (count : Nat) :
    (course.stage count).observed.length = count / course.plan.interval := by
  induction count with
  | zero => rw [stage, Nat.zero_div, List.length_nil]
  | succ count ih =>
      by_cases hdue : (count + 1) % course.plan.interval = 0
      · have hlook : course.plan.lookAfter? (count + 1) =
            some ((count + 1) / course.plan.interval - 1) := by
          rw [RunPlan.lookAfter?, if_pos hdue]
        rw [stage_succ_of_look hlook, List.length_cons, ih,
          Nat.succ_div_of_mod_eq_zero hdue]
      · have hlook : course.plan.lookAfter? (count + 1) = none := by
          rw [RunPlan.lookAfter?, if_neg hdue]
        rw [stage_succ_of_no_look hlook, ih, Nat.succ_div_of_mod_ne_zero hdue]

theorem isCancelled_at_look
    (hinterval : 0 < course.plan.interval) (look : Nat) :
    course.isCancelled ((look + 1) * course.plan.interval) = course.host.cancelled look := by
  rw [isCancelled, RunPlan.lookAfter?, Nat.mul_mod_left, if_pos rfl,
    Nat.mul_div_cancel _ hinterval, Nat.add_sub_cancel, Option.any_some]

theorem out?_ne_none_of_isCancelled
    (hpositive : 0 < count) (hcancelled : course.isCancelled count = true) :
    course.out? count ≠ none := by
  obtain ⟨count, rfl⟩ : ∃ previous, count = previous + 1 :=
    ⟨count - 1, by omega⟩
  intro hout
  rw [out?, Option.or_eq_none_iff] at hout
  have hafter := hout.1
  cases hanswer : (course.stage count).session.step.1 with
  | error stop =>
      rw [outAfter?_of_error hanswer] at hafter
      cases hafter
  | ok hits =>
      cases hits with
      | nil =>
          rw [outAfter?_of_quiet hanswer, if_pos hcancelled] at hafter
          cases hafter
      | cons hit hits =>
          rw [outAfter?_of_hits hanswer] at hafter
          cases hafter

/-! ## How a run ends -/

theorem run_of_outAfter?
    (hafter : course.outAfter? count = some run) :
    run.endsOnStep = true ∧
      run.observed.length = (count - 1) / course.plan.interval ∧
        ∀ address, run.outcome ≠ .ok (.breakpoint address) := by
  cases count with
  | zero => cases hafter
  | succ count =>
      have hlength := course.length_observed_stage count
      cases hanswer : (course.stage count).session.step.1 with
      | error stop =>
          rw [outAfter?_of_error hanswer] at hafter
          cases hafter
          exact ⟨rfl, hlength, fun address => nofun⟩
      | ok hits =>
          cases hits with
          | nil =>
              rw [outAfter?_of_quiet hanswer] at hafter
              split at hafter
              · cases hafter
                exact ⟨rfl, hlength, fun address => nofun⟩
              · cases hafter
          | cons hit hits =>
              rw [outAfter?_of_hits hanswer] at hafter
              cases hafter
              exact ⟨rfl, hlength, fun address => nofun⟩

theorem run_of_outBefore?
    (hbefore : course.outBefore? count = some run) :
    run.endsOnStep = false ∧
      run.observed.length = count / course.plan.interval ∧
        ∀ address, run.outcome = .ok (.breakpoint address) →
          course.plan.cursor ≠ some address := by
  have hlength := course.length_observed_stage count
  rw [outBefore?, Option.map_eq_some_iff] at hbefore
  obtain ⟨reason, hstop, rfl⟩ := hbefore
  unfold stopBefore? at hstop
  dsimp only at hstop
  split at hstop
  · cases hstop
    exact ⟨rfl, hlength, fun address => nofun⟩
  · split at hstop
    · cases hstop
      exact ⟨rfl, hlength, fun address => nofun⟩
    next hcursor =>
      split at hstop
      next hbreakpoint =>
        cases hstop
        refine ⟨rfl, hlength, ?_⟩
        intro address houtcome
        cases houtcome
        exact fun hsame => hcursor ⟨hbreakpoint.1, hsame⟩
      · split at hstop
        · cases hstop
          exact ⟨rfl, hlength, fun address => nofun⟩
        · cases hstop

theorem run_of_out?
    (hout : course.out? count = some run) :
    run.observed.length =
        (if run.endsOnStep then count - 1 else count) / course.plan.interval ∧
      ∀ address, run.outcome = .ok (.breakpoint address) →
        course.plan.cursor ≠ some address := by
  rw [out?, Option.or_eq_some_iff] at hout
  rcases hout with hafter | ⟨-, hbefore⟩
  · obtain ⟨hends, hlength, hother⟩ := run_of_outAfter? hafter
    rw [hends, if_pos rfl]
    exact ⟨hlength, fun address houtcome => (hother address houtcome).elim⟩
  · obtain ⟨hends, hlength, hcursor⟩ := run_of_outBefore? hbefore
    rw [hends, if_neg Bool.false_ne_true]
    exact ⟨hlength, hcursor⟩

/-- If every look after some number of steps finds the run cancelled, it takes at most
one interval more. -/
theorem le_of_cancelled_after {asked last : Nat}
    (hinterval : 0 < course.plan.interval)
    (hnone : ∀ earlier, earlier < last → course.out? earlier = none)
    (hcancelled : ∀ look, asked < (look + 1) * course.plan.interval →
      course.host.cancelled look = true) :
    last ≤ asked + course.plan.interval := by
  have hafter : asked < (asked / course.plan.interval + 1) * course.plan.interval := by
    rw [Nat.succ_mul]
    exact Nat.lt_div_mul_add hinterval
  -- the next look is due within one interval
  have hsoon : (asked / course.plan.interval + 1) * course.plan.interval ≤
      asked + course.plan.interval := by
    rw [Nat.succ_mul]
    exact Nat.add_le_add_right (Nat.div_mul_le_self asked _) _
  have hlook : course.isCancelled
      ((asked / course.plan.interval + 1) * course.plan.interval) = true := by
    rw [isCancelled_at_look hinterval]
    exact hcancelled _ hafter
  apply Nat.le_of_not_lt
  intro hlate
  exact out?_ne_none_of_isCancelled (by omega) hlook (hnone _ (by omega))

theorem run_eq_rest
    {session : Session} {cursor : Option Word} {limit : Option Nat} {host : RunHost ε}
    (hprogram : session.program.isSome) :
    session.run cursor limit host =
      (ofRun session cursor limit host).rest 0 (ofRun session cursor limit host).plan.limit := by
  have hloaded : session.program.isNone = false := Option.isNone_eq_false_iff.mpr hprogram
  rw [Session.run, Session.openRun, hloaded, if_neg Bool.false_ne_true, rest, isFree_zero,
    Bool.not_not]
  rfl

end Course

/-- Whatever a session, its cursor, its limit and its host are, a run of it takes the least
number of steps after which something stops it, and comes out as the first thing that does:
the step failed, it touched a watchpoint, the run is found cancelled, the machine has
halted, it is at the cursor, it is at a breakpoint, or there are no steps left. -/
theorem run_stops_at_first_stop
    (session : Session) (cursor : Option Word) (limit : Option Nat) (host : RunHost ε)
    (hprogram : session.program.isSome) :
    let course := Course.ofRun session cursor limit host
    let interval := max session.settings.yieldInterval 1
    let run := session.run cursor limit host
    ∃ count,
      (∀ earlier, earlier < count → course.out? earlier = none) ∧
        course.out? count = some run ∧
        count ≤ limit.getD session.settings.stepLimit ∧
        (∀ asked,
          (∀ look, asked < (look + 1) * interval → host.cancelled look = true) →
            count ≤ asked + interval) ∧
        (∀ address, run.outcome = .ok (.breakpoint address) → cursor ≠ some address) ∧
        run.observed.length = (if run.endsOnStep then count - 1 else count) / interval := by
  intro course interval run
  have hrun : run = course.rest 0 course.plan.limit := Course.run_eq_rest hprogram
  have hstart : course.outAfter? 0 = none := rfl
  obtain ⟨last, hlast, hnone, hout⟩ :=
    Course.exists_out?_eq_rest (Nat.zero_add course.plan.limit) hstart
  rw [← hrun] at hout
  obtain ⟨hlength, hcursor⟩ := Course.run_of_out? hout
  refine ⟨last, fun earlier hlt => hnone earlier (Nat.zero_le earlier) hlt, hout, hlast,
    ?_, hcursor, hlength⟩
  intro asked hcancelled
  exact Course.le_of_cancelled_after (Nat.le_max_right _ 1)
    (fun earlier hlt => hnone earlier (Nat.zero_le earlier) hlt) hcancelled

def Program.loneReturn : Program where
  instructions :=
    #[{ opcode := .ret, operands := [], line := 1, column := 1,
        source := "RET".toList, address := 0 }]
  symbols := {}
  data := #[]
  textStart := 0
  dataStart := 0

/-- The cursor wins over a breakpoint at the same address, and the next run leaves both. -/
theorem run_stops_at_first_stop_loneReturn :
    let session :=
      ((Session.start {} .standard).load .loneReturn).setBreakpoints
        (Breakpoints.ofList [{ address := 0 }])
    let host : RunHost Unit :=
      { cancelled := fun _ => false, observe := fun _ session => ((), session) }
    let paused := session.run (some 0) none host
    let resumed := paused.session.run none none host
    (paused.outcome = .ok (.cursor 0) ∧
        ∃ count, (Course.ofRun session (some 0) none host).out? count = some paused) ∧
      resumed.outcome = .error (.failed (Fault.stackUnderflow.diagnostic 1 1)) ∧
        ∃ count, (Course.ofRun paused.session none none host).out? count = some resumed := by
  intro session host paused resumed
  obtain ⟨count, -, hpaused, -⟩ := run_stops_at_first_stop session (some 0) none host rfl
  obtain ⟨count', -, hresumed, -⟩ :=
    run_stops_at_first_stop paused.session none none host rfl
  exact ⟨⟨rfl, count, hpaused⟩, rfl, count', hresumed⟩

end WordMachine
