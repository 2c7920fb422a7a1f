import WordMachine.Proofs.RunCourse
import WordMachine.Proofs.SessionHistory
import WordMachine.Proofs.Transparency

/-!
# Resuming from a pause

A run that stops at a breakpoint or at its cursor marks the place, and the next
run leaves a marked place before it stops anywhere.  The mark is always where the
latest run has paused, as long as nothing has moved the session since; so no
breakpoint is passed over and none holds a run for ever.
-/

namespace WordMachine

/-- Where a run stands that has stopped at its cursor or at a breakpoint. -/
def PauseReason.place? : PauseReason → Option Word
  | .cursor address | .breakpoint address => some address
  | .halted | .watchpoint _ | .stepLimit _ | .cancelled => none

/-- Where a run that comes out like this has paused. -/
def placeOf? : Except Stop PauseReason → Option Word
  | .ok reason => reason.place?
  | .error _ => none

/-- Whoever looks at a run may do anything to the session but run it. -/
def Operation.IsFlat : Operation → Prop
  | .run _ _ _ looked => ∀ look session resumeFrom, Deed.mark resumeFrom ∉ looked look session
  | .assemble _ | .load _ | .reset | .step | .stepBack | .setBreakpoints _ | .setWatchpoints _
  | .state | .rehost _ => True

namespace Session

/-- Where an operation pauses, if it is a run that stops at its cursor or at a breakpoint. -/
def pausesAt? (session : Session) : Operation → Option Word
  | .run cursor limit cancelled looked =>
      placeOf? (session.run cursor limit (deedsHost cancelled looked)).outcome
  | .assemble _ | .load _ | .reset | .step | .stepBack | .setBreakpoints _ | .setWatchpoints _
  | .state | .rehost _ => none

/-- The operation neither runs the session nor moves it. -/
def Rests (session : Session) : Operation → Prop
  | .assemble source => ∃ failure, WordMachine.assemble source = .error failure
  | .step => session.program = none
  | .stepBack => ∃ error, session.stepBack.1 = .error error
  | .setBreakpoints _ | .setWatchpoints _ | .state | .rehost _ => True
  | .load _ | .reset | .run .. => False

/-- None of the operations runs the session or moves it. -/
def RestsAll (session : Session) : List Operation → Prop
  | [] => True
  | operation :: operations =>
      session.Rests operation ∧ (session.operate operation).RestsAll operations

/-- A mark is where the session stands, and it can go on from there. -/
structure Marked (session : Session) : Prop where
  loaded : session.resumeFrom.isSome = true → session.program.isSome = true
  here : ∀ address, session.resumeFrom = some address →
    session.machine.cpu.instructionPointer = address
  running : session.resumeFrom.isSome = true → session.machine.cpu.halted = false

variable {session session' : Session} {address : Word}

theorem marked_of_eq_none (hnone : session.resumeFrom = none) : session.Marked where
  loaded h := by simp [hnone] at h
  here address h := by simp [hnone] at h
  running h := by simp [hnone] at h

theorem Marked.of_eq (hmarked : session.Marked)
    (hresume : session'.resumeFrom = session.resumeFrom)
    (hprogram : session'.program = session.program)
    (hcpu : session'.machine.cpu = session.machine.cpu) : session'.Marked where
  loaded := by
    rw [hresume, hprogram]
    exact hmarked.loaded
  here := by
    rw [hresume, hcpu]
    exact hmarked.here
  running := by
    rw [hresume, hcpu]
    exact hmarked.running

/-! ## A run and its mark -/

/-- A session that is being run: no place is marked yet. -/
def Unmarked (session : Session) : Prop :=
  session.program.isSome = true ∧ session.resumeFrom = none

theorem resumeFrom_step (hloaded : session.program.isSome = true) :
    session.step.2.Unmarked := by
  obtain ⟨program, hprogram⟩ := Option.isSome_iff_exists.mp hloaded
  rcases step_cases hprogram with
    ⟨-, hhalted⟩ | ⟨machine, -, haccepted⟩ | ⟨failure, machine, -, hfailed⟩
  · rw [hhalted]
    exact ⟨hloaded, rfl⟩
  · rw [haccepted]
    exact ⟨hloaded, rfl⟩
  · rw [hfailed]
    exact ⟨hloaded, rfl⟩

theorem step_of_unloaded (hnone : session.program = none) :
    session.step = (.error (.failed SessionError.noProgram.diagnostic), session) := by
  rw [step, hnone]

/-- A step back that succeeds takes the mark away, and one that fails changes the trace alone. -/
theorem stepBack_cases (session : Session) :
    (session.stepBack.1 = .ok () ∧ session.stepBack.2.resumeFrom = none ∧
        session.stepBack.2.program = session.program) ∨
      ∃ error trace, session.stepBack = (.error error, { session with trace }) := by
  cases hback : session.stepBack with
  | mk answer after =>
      cases answer with
      | error error =>
          obtain ⟨trace, rfl⟩ := stepBack_eq_of_error hback
          exact .inr ⟨error, trace, rfl⟩
      | ok answer =>
          left
          unfold stepBack at hback
          split at hback
          · cases hback
          · split at hback
            · cases hback
            · split at hback
              · cases hback
              · cases hback
                exact ⟨rfl, rfl, rfl⟩

theorem Unmarked.perform (hunmarked : session.Unmarked) (deed : Deed)
    (hdeed : ∀ resumeFrom, deed ≠ .mark resumeFrom) : (session.perform deed).Unmarked := by
  cases deed with
  | load program => exact ⟨rfl, rfl⟩
  | reset => exact ⟨hunmarked.1, rfl⟩
  | step => exact resumeFrom_step hunmarked.1
  | stepBack =>
      rw [Session.perform]
      rcases session.stepBack_cases with ⟨-, hnone, hprogram⟩ | ⟨error, trace, hback⟩
      · rw [Unmarked, hprogram]
        exact ⟨hunmarked.1, hnone⟩
      · rw [hback]
        exact hunmarked
  | setBreakpoints | setWatchpoints | state | rehost => exact hunmarked
  | mark resumeFrom => exact absurd rfl (hdeed resumeFrom)

theorem Unmarked.performAll (hunmarked : session.Unmarked) (deeds : List Deed)
    (hdeeds : ∀ resumeFrom, Deed.mark resumeFrom ∉ deeds) :
    (session.performAll deeds).Unmarked := by
  induction deeds generalizing session with
  | nil => exact hunmarked
  | cons deed deeds ih =>
      simp only [List.mem_cons, not_or] at hdeeds
      apply ih
      · exact hunmarked.perform deed fun resumeFrom hsame => (hdeeds resumeFrom).1 hsame.symm
      · exact fun resumeFrom => (hdeeds resumeFrom).2

theorem pauseHere?_place {cursor : Option Word} {resuming : Bool} {reason : PauseReason}
    (hpause : session.pauseHere? cursor resuming = some reason)
    (hplace : reason.place? = some address) :
    session.machine.cpu.instructionPointer = address ∧ session.machine.cpu.halted = false := by
  unfold pauseHere? at hpause
  dsimp only at hpause
  split at hpause
  · cases hpause
    cases hplace
  next hrunning =>
    have hhalted : session.machine.cpu.halted = false := Bool.eq_false_iff.mpr hrunning
    split at hpause
    · cases hpause
    · split at hpause
      · cases hpause
        exact ⟨Option.some.inj hplace, hhalted⟩
      · split at hpause
        · cases hpause
          exact ⟨Option.some.inj hplace, hhalted⟩
        · cases hpause

/-- What a run leaves behind: a mark where it has paused, and none otherwise. -/
structure Leaves (session : Session) (place : Option Word) : Prop where
  marked : session.Marked
  mark : session.resumeFrom = place

theorem Unmarked.leaves (hunmarked : session.Unmarked) : session.Leaves none where
  marked := marked_of_eq_none hunmarked.2
  mark := hunmarked.2

theorem Unmarked.leaves_markPause (hunmarked : session.Unmarked) {reason : PauseReason}
    (hhere : ∀ address, reason.place? = some address →
      session.machine.cpu.instructionPointer = address ∧
        session.machine.cpu.halted = false) :
    (session.markPause reason).Leaves reason.place? := by
  cases reason with
  | cursor address | breakpoint address =>
      obtain ⟨hpointer, hrunning⟩ := hhere address rfl
      refine ⟨⟨fun _ => hunmarked.1, ?_, fun _ => hrunning⟩, rfl⟩
      intro marked hmark
      cases hmark
      exact hpointer
  | halted | watchpoint | stepLimit | cancelled => exact hunmarked.leaves

def TurnLeaves : Turn × Session → Prop
  | (.over outcome, after) => after.Leaves (placeOf? outcome)
  | (.stepped, after) => after.Unmarked

theorem Unmarked.turnLeaves (hunmarked : session.Unmarked) (plan : RunPlan) (resuming : Bool) :
    TurnLeaves (session.turn plan resuming) := by
  have hstepped := resumeFrom_step hunmarked.1
  unfold turn
  cases hpause : session.pauseHere? plan.cursor resuming with
  | some reason => exact hunmarked.leaves_markPause fun _ => pauseHere?_place hpause
  | none =>
      rcases hstep : session.step with ⟨stop | (_ | ⟨hit, hits⟩), after⟩
      · rw [hstep] at hstepped
        exact hstepped.leaves
      · rw [hstep] at hstepped
        exact hstepped
      · rw [hstep] at hstepped
        exact hstepped.leaves

theorem Unmarked.leaves_runFrom {ε : Type} {host : RunHost ε}
    (hhost : ∀ look session, session.Unmarked → (host.observe look session).2.Unmarked)
    (hunmarked : session.Unmarked) (plan : RunPlan) (remaining : Nat) (resuming : Bool)
    (observed : List ε) :
    let run := session.runFrom host plan remaining resuming observed
    run.session.Leaves (placeOf? run.outcome) := by
  -- a run takes the mark away when it is opened, so only its own end can leave one
  induction remaining generalizing session resuming observed with
  | zero =>
      apply hunmarked.leaves_markPause
      intro address hplace
      cases hpause : session.pauseHere? plan.cursor resuming with
      | some reason =>
          rw [hpause] at hplace
          exact pauseHere?_place hpause hplace
      | none =>
          rw [hpause] at hplace
          cases hplace
  | succ remaining ih =>
      have hleaves := hunmarked.turnLeaves plan resuming
      dsimp only
      unfold runFrom
      rcases hturn : session.turn plan resuming with ⟨outcome | _, after⟩
      · rw [hturn] at hleaves
        exact hleaves
      · rw [hturn] at hleaves
        have hafter : after.Unmarked := hleaves
        dsimp only
        cases plan.look? remaining with
        | none => exact ih hafter false observed
        | some look =>
            dsimp only
            by_cases hcancelled : host.cancelled look = true
            · rw [if_pos hcancelled]
              exact hafter.leaves
            · rw [if_neg hcancelled]
              exact ih (hhost look after hafter) false _

/-! ## Operations and the mark -/

theorem leaves_run {cursor : Option Word} {limit : Option Nat} {cancelled : Nat → Bool}
    {looked : Nat → Session → List Deed} (hloaded : session.program.isSome = true)
    (hflat : (Operation.run cursor limit cancelled looked).IsFlat) :
    let run := session.run cursor limit (deedsHost cancelled looked)
    run.session.Leaves (placeOf? run.outcome) := by
  have hprogram : session.program.isNone = false := Option.isNone_eq_false_iff.mpr hloaded
  have hopened : { session with resumeFrom := none : Session }.Unmarked := ⟨hloaded, rfl⟩
  have hhost : ∀ look seen, Unmarked seen →
      ((deedsHost cancelled looked).observe look seen).2.Unmarked :=
    fun look seen hseen => hseen.performAll _ (hflat look seen)
  dsimp only
  rw [run, openRun, hprogram, if_neg Bool.false_ne_true]
  exact hopened.leaves_runFrom hhost _ _ _ []

theorem run_of_unloaded {ε : Type} (hnone : session.program = none)
    (cursor : Option Word) (limit : Option Nat) (host : RunHost ε) :
    session.run cursor limit host =
      ⟨.error (.failed SessionError.noProgram.diagnostic), session, []⟩ := by
  rw [run, openRun, hnone]
  rfl

/-- After an operation a place is marked if it has just paused there, or was marked and nothing
has moved. -/
structure Follows (session : Session) (operation : Operation) : Prop where
  marked : (session.operate operation).Marked
  mark : ∀ address, (session.operate operation).resumeFrom = some address ↔
    session.pausesAt? operation = some address ∨
      session.resumeFrom = some address ∧ session.Rests operation

/-- The operation is no run and leaves the mark and what it is about alone. -/
theorem Marked.follows_of_rests {operation : Operation} (hmarked : session.Marked)
    (hpause : session.pausesAt? operation = none) (hrests : session.Rests operation)
    (hresume : (session.operate operation).resumeFrom = session.resumeFrom)
    (hprogram : (session.operate operation).program = session.program)
    (hcpu : (session.operate operation).machine.cpu = session.machine.cpu) :
    session.Follows operation where
  marked := hmarked.of_eq hresume hprogram hcpu
  mark address := by simp [hresume, hpause, hrests]

/-- The operation is no run and takes the mark away. -/
theorem follows_of_eq_none {operation : Operation}
    (hpause : session.pausesAt? operation = none) (hrests : ¬session.Rests operation)
    (hnone : (session.operate operation).resumeFrom = none) : session.Follows operation where
  marked := marked_of_eq_none hnone
  mark address := by simp [hnone, hpause, hrests]

theorem Marked.follows_assemble (hmarked : session.Marked) (source : Text) :
    session.Follows (.assemble source) := by
  cases hassemble : WordMachine.assemble source with
  | error failure =>
      have hsame : session.operate (.assemble source) = session := by
        obtain ⟨stop, hstop⟩ := session.assemble_of_error hassemble
        rw [operate, hstop]
      refine hmarked.follows_of_rests rfl ⟨failure, hassemble⟩ ?_ ?_ ?_
      all_goals rw [hsame]
  | ok program =>
      have hload : session.operate (.assemble source) = session.load program := by
        rw [operate, session.assemble_of_ok hassemble]
      have hmoves : ¬session.Rests (.assemble source) := by
        rintro ⟨failure, herror⟩
        rw [hassemble] at herror
        cases herror
      refine follows_of_eq_none rfl hmoves ?_
      rw [hload]
      rfl

theorem Marked.follows_step (hmarked : session.Marked) : session.Follows .step := by
  cases hprogram : session.program with
  | none =>
      have hsame : session.operate .step = session := by
        rw [operate, step_of_unloaded hprogram]
      refine hmarked.follows_of_rests rfl hprogram ?_ ?_ ?_
      all_goals rw [hsame]
  | some program =>
      have hloaded : session.program.isSome = true := by rw [hprogram]; rfl
      have hmoves : ¬session.Rests .step := by
        intro hnone
        rw [Rests, hprogram] at hnone
        cases hnone
      exact follows_of_eq_none rfl hmoves (resumeFrom_step hloaded).2

theorem Marked.follows_stepBack (hmarked : session.Marked) : session.Follows .stepBack := by
  rcases session.stepBack_cases with ⟨hok, hnone, -⟩ | ⟨error, trace, hback⟩
  · have hmoves : ¬session.Rests .stepBack := by
      rintro ⟨error, herror⟩
      rw [hok] at herror
      cases herror
    exact follows_of_eq_none rfl hmoves hnone
  · have hrests : session.Rests .stepBack := ⟨error, by rw [hback]⟩
    refine hmarked.follows_of_rests rfl hrests ?_ ?_ ?_
    all_goals rw [operate, hback]

theorem Marked.follows_run (hmarked : session.Marked) {cursor : Option Word} {limit : Option Nat}
    {cancelled : Nat → Bool} {looked : Nat → Session → List Deed}
    (hflat : (Operation.run cursor limit cancelled looked).IsFlat) :
    session.Follows (.run cursor limit cancelled looked) := by
  cases hprogram : session.program with
  | none =>
      have hrun := run_of_unloaded hprogram cursor limit (deedsHost cancelled looked)
      have hnone : session.resumeFrom = none := by
        cases hresume : session.resumeFrom with
        | none => rfl
        | some address =>
            have hloaded := hmarked.loaded (by rw [hresume]; rfl)
            rw [hprogram] at hloaded
            cases hloaded
      refine follows_of_eq_none ?_ id ?_
      · rw [pausesAt?, hrun]
        rfl
      · rw [operate, hrun]
        exact hnone
  | some program =>
      have hloaded : session.program.isSome = true := by rw [hprogram]; rfl
      have hleaves := leaves_run hloaded hflat
      refine ⟨hleaves.marked, fun address => ?_⟩
      rw [operate, hleaves.mark, pausesAt?]
      simp [Rests]

theorem Marked.follows (hmarked : session.Marked) {operation : Operation}
    (hflat : operation.IsFlat) : session.Follows operation := by
  cases operation with
  | assemble source => exact hmarked.follows_assemble source
  | load | reset => exact follows_of_eq_none rfl id rfl
  | step => exact hmarked.follows_step
  | stepBack => exact hmarked.follows_stepBack
  | setBreakpoints | setWatchpoints | state | rehost =>
      exact hmarked.follows_of_rests rfl trivial rfl rfl rfl
  | run => exact hmarked.follows_run hflat

theorem Marked.operateAll (hmarked : session.Marked) (operations : List Operation)
    (hflat : ∀ operation ∈ operations, operation.IsFlat) :
    (session.operateAll operations).Marked := by
  induction operations generalizing session with
  | nil => exact hmarked
  | cons operation operations ih =>
      simp only [List.forall_mem_cons] at hflat
      exact ih (hmarked.follows hflat.1).marked hflat.2

/-- The latest run has paused at the address, and nothing has moved the session since. -/
def RestsAt (session : Session) (operations : List Operation) (address : Word) : Prop :=
  ∃ earlier run later,
    operations = earlier ++ run :: later ∧
      (session.operateAll earlier).pausesAt? run = some address ∧
        (session.operateAll (earlier ++ [run])).RestsAll later

theorem restsAt_cons_iff {operation : Operation} {operations : List Operation} :
    session.RestsAt (operation :: operations) address ↔
      session.pausesAt? operation = some address ∧
          (session.operate operation).RestsAll operations ∨
        (session.operate operation).RestsAt operations address := by
  constructor
  · rintro ⟨earlier, run, later, hsplit, hpause, hrests⟩
    cases earlier with
    | nil =>
        cases hsplit
        exact .inl ⟨hpause, hrests⟩
    | cons first earlier =>
        cases hsplit
        exact .inr ⟨earlier, run, later, rfl, hpause, hrests⟩
  · rintro (⟨hpause, hrests⟩ | ⟨earlier, run, later, rfl, hpause, hrests⟩)
    · exact ⟨[], operation, operations, rfl, hpause, hrests⟩
    · exact ⟨operation :: earlier, run, later, rfl, hpause, hrests⟩

theorem Marked.resumeFrom_operateAll (hmarked : session.Marked) (operations : List Operation)
    (hflat : ∀ operation ∈ operations, operation.IsFlat) :
    (session.operateAll operations).resumeFrom = some address ↔
      session.resumeFrom = some address ∧ session.RestsAll operations ∨
        session.RestsAt operations address := by
  induction operations generalizing session with
  | nil => simp [Session.operateAll, RestsAll, RestsAt]
  | cons operation operations ih =>
      simp only [List.forall_mem_cons] at hflat
      have hfollows := hmarked.follows hflat.1
      have hlater := ih hfollows.marked hflat.2
      rw [restsAt_cons_iff, RestsAll]
      refine hlater.trans ?_
      rw [hfollows.mark, or_and_right, and_assoc, or_assoc, or_left_comm]

theorem marked_start (settings : Settings) (calls : Handler) :
    (start settings calls).Marked :=
  marked_of_eq_none rfl

theorem resumeFrom_start_operateAll (settings : Settings) (calls : Handler)
    (operations : List Operation) (hflat : ∀ operation ∈ operations, operation.IsFlat) :
    ((start settings calls).operateAll operations).resumeFrom = some address ↔
      (start settings calls).RestsAt operations address := by
  have hnone : (start settings calls).resumeFrom = none := rfl
  rw [(marked_start settings calls).resumeFrom_operateAll operations hflat, hnone]
  simp

end Session

/-! ## What a resumed run passes -/

namespace Course

variable {ε : Type} {course : Course ε} {count : Nat}

/-- Where a run would stop: at its cursor or at an active breakpoint. -/
def IsPlace (course : Course ε) (session : Session) (address : Word) : Prop :=
  session.machine.cpu.instructionPointer = address ∧
    (course.plan.cursor = some address ∨ session.breakpoints.isActive address = true)

theorem isFree_eq_false_of_out? {address : Word}
    (hout : course.out? count = none)
    (hplace : course.IsPlace (course.stage count).session address) :
    course.isFree count = false := by
  obtain ⟨rfl, hstops⟩ := hplace
  rw [out?, Option.or_eq_none_iff] at hout
  have hpause := pauseHere?_eq_none_of_outBefore? hout.2
  cases hfree : course.isFree count with
  | false => rfl
  | true =>
      unfold Session.pauseHere? at hpause
      dsimp only at hpause
      split at hpause
      · cases hpause
      · by_cases hcursor :
            course.plan.cursor = some (course.stage count).session.machine.cpu.instructionPointer
        · simp [hfree, hcursor] at hpause
        · have hactive := hstops.resolve_left hcursor
          simp [hfree, hcursor, hactive] at hpause

theorem resumes_of_out? {address : Word}
    (hout : course.out? count = none)
    (hplace : course.IsPlace (course.stage count).session address) :
    count = 0 ∧ course.resuming = true := by
  have hfree := isFree_eq_false_of_out? hout hplace
  cases count with
  | zero => simpa using hfree
  | succ count => simp at hfree

/-- A run that has a place to leave and a step to leave it with takes that step. -/
theorem out?_zero_of_resuming (hresuming : course.resuming = true)
    (hrunning : course.start.machine.cpu.halted = false) (hlimit : 1 ≤ course.plan.limit) :
    course.out? 0 = none := by
  have hroom : ¬course.plan.limit ≤ 0 := by omega
  have hpause : course.start.pauseHere? course.plan.cursor true = none := by
    simp [Session.pauseHere?, hrunning]
  have hbefore : course.stopBefore? 0 course.start = none := by
    simp [stopBefore?_eq, hresuming, hpause, hroom]
  have hstart : (course.stage 0).session = course.start := rfl
  rw [out?, outAfter?, outBefore?, hstart, hbefore]
  rfl

end Course

/-- After operations that follow one another, a session is marked where its latest run has
paused, if nothing has moved it since, and is marked nowhere else; it stands there and has not
halted.  So a run executes an instruction at its cursor or at an active breakpoint only as its
first one, and only from a pause right there, and a run that goes on from a pause executes that
first one.  Whoever looks at this last run may also start others. -/
theorem pauses_are_left_once
    (settings : Settings) (calls : Handler) (operations : List Operation) (session : Session)
    (hflat : ∀ operation ∈ operations, operation.IsFlat)
    (hsession : (Session.start settings calls).operateAll operations = session) :
    (∀ address, session.resumeFrom = some address ↔
        ∃ earlier run later,
          operations = earlier ++ run :: later ∧
            ((Session.start settings calls).operateAll earlier).pausesAt? run = some address ∧
              ((Session.start settings calls).operateAll (earlier ++ [run])).RestsAll later) ∧
      (∀ address, session.resumeFrom = some address →
        session.machine.cpu.instructionPointer = address ∧ session.machine.cpu.halted = false) ∧
      ∀ {ε : Type} (cursor : Option Word) (limit : Option Nat) (host : RunHost ε),
        session.program.isSome = true →
          let course := Course.ofRun session cursor limit host
          ∃ last,
            (∀ count, count < last → course.out? count = none) ∧
              course.out? last = some (session.run cursor limit host) ∧
              (∀ count address, count < last →
                course.IsPlace (course.stage count).session address →
                  count = 0 ∧ session.resumeFrom = some address) ∧
              (session.resumeFrom.isSome = true → 1 ≤ course.plan.limit → 1 ≤ last) := by
  subst session
  have hmarked := (Session.marked_start settings calls).operateAll operations hflat
  refine ⟨fun address => ?_, fun address hmark => ?_, ?_⟩
  · exact Session.resumeFrom_start_operateAll settings calls operations hflat
  · exact ⟨hmarked.here address hmark, hmarked.running (by rw [hmark]; rfl)⟩
  generalize (Session.start settings calls).operateAll operations = session at hmarked
  intro ε cursor limit host hloaded course
  have hstart : course.outAfter? 0 = none := rfl
  obtain ⟨last, hlast, hnone, hout⟩ :=
    Course.exists_out?_eq_rest (Nat.zero_add course.plan.limit) hstart
  rw [← Course.run_eq_rest hloaded] at hout
  refine ⟨last, fun count hlt => hnone count (Nat.zero_le count) hlt, hout, ?_, ?_⟩
  · intro count address hlt hplace
    obtain ⟨rfl, hresuming⟩ := Course.resumes_of_out? (hnone count (Nat.zero_le count) hlt) hplace
    have hresume : session.resumeFrom = some session.machine.cpu.instructionPointer :=
      of_decide_eq_true hresuming
    have hhere : session.machine.cpu.instructionPointer = address := hplace.1
    exact ⟨rfl, by rw [hresume, hhere]⟩
  · intro hmark hlimit
    obtain ⟨address, hresume⟩ := Option.isSome_iff_exists.mp hmark
    have hresuming : course.resuming = true := by
      apply decide_eq_true
      rw [hresume, hmarked.here address hresume]
    have hfirst := Course.out?_zero_of_resuming hresuming (hmarked.running hmark) hlimit
    apply Nat.one_le_iff_ne_zero.mpr
    intro hzero
    rw [hzero, hfirst] at hout
    cases hout

/-- A run that comes to a breakpoint, and a state taken there before the next run leaves it. -/
theorem pauses_are_left_once_counting :
    let run : Operation := .run none none (fun _ => false) (fun _ _ => [.state])
    let operations : List Operation :=
      [.load .counting, .setBreakpoints (Breakpoints.ofList [{ address := 1 }]), run, .state]
    let session := (Session.start { yieldInterval := 1 } .standard).operateAll operations
    let host : RunHost Unit :=
      { cancelled := fun _ => false, observe := fun _ session => ((), session) }
    let resumed := session.run none (some 1) host
    session.resumeFrom = some 1 ∧ session.machine.cpu.instructionPointer = 1 ∧
      resumed.outcome.toOption = some (.stepLimit 1) ∧
        ∃ last, 1 ≤ last ∧ (Course.ofRun session none (some 1) host).out? last = some resumed := by
  intro run operations session host resumed
  have hflat : ∀ operation ∈ operations, operation.IsFlat := by
    simp [operations, run, Operation.IsFlat]
  obtain ⟨hmark, hhere, hruns⟩ :=
    pauses_are_left_once { yieldInterval := 1 } .standard operations session hflat rfl
  have hpauses : ((Session.start { yieldInterval := 1 } .standard).operateAll
      (operations.take 2)).pausesAt? run = some 1 := by
    decide +kernel
  have hresume : session.resumeFrom = some 1 :=
    (hmark 1).mpr ⟨operations.take 2, run, [.state], rfl, hpauses, trivial, trivial⟩
  obtain ⟨last, -, hout, -, hfirst⟩ := hruns none (some 1) host (by decide +kernel)
  refine ⟨hresume, (hhere 1 hresume).1, by decide +kernel, last, ?_, hout⟩
  exact hfirst (by rw [hresume]; rfl) (Nat.le_refl 1)

end WordMachine
