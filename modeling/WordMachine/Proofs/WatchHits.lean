import WordMachine.Proofs.FailingSteps
import WordMachine.Proofs.MaximalRuns
import WordMachine.Proofs.SessionHistory
import Mathlib.Data.List.Basic

/-!
# Watchpoints fire on every change

A session finds its hits in a roundabout way: it compares memory with an image of
it after the last step, looks only at the watchpoints that the changed regions
touch, and compares these with values that it remembers.  Whatever has been done
to the session, image and values are those of the present memory.  So the hits of
a step are the watchpoints whose value the step has changed, and no others.
-/

namespace WordMachine

namespace Watchpoint

/-- The hit, if the value differs between two memories. -/
def change? (before after : Memory) (watchpoint : Watchpoint) : Option WatchHit :=
  let value? (memory : Memory) := memory.read? watchpoint.address.toNat watchpoint.width
  match value? before, value? after with
  | some old, some new =>
      if watchpoint.condition ≠ some .read ∧ old ≠ new then
        some { address := watchpoint.address, width := watchpoint.width, old, new }
      else none
  | _, _ => none

variable {before after : Memory} {watchpoint : Watchpoint}

theorem change?_eq_some_iff (hit : WatchHit) :
    watchpoint.change? before after = some hit ↔
      watchpoint.condition ≠ some .read ∧
        before.read? watchpoint.address.toNat watchpoint.width = some hit.old ∧
        after.read? watchpoint.address.toNat watchpoint.width = some hit.new ∧
        hit.old ≠ hit.new ∧ hit.address = watchpoint.address ∧ hit.width = watchpoint.width := by
  unfold change?
  dsimp only
  cases hold : before.read? watchpoint.address.toNat watchpoint.width with
  | none => simp
  | some old =>
      cases hnew : after.read? watchpoint.address.toNat watchpoint.width with
      | none => simp
      | some new =>
          dsimp only
          by_cases hfires : watchpoint.condition ≠ some .read ∧ old ≠ new
          · rw [if_pos hfires]
            constructor
            · intro hhit
              cases hhit
              exact ⟨hfires.1, rfl, rfl, hfires.2, rfl, rfl⟩
            · rintro ⟨-, holdHit, hnewHit, -, haddress, hwidth⟩
              cases hit
              simp_all
          · rw [if_neg hfires]
            constructor
            · exact nofun
            · rintro ⟨hcondition, holdHit, hnewHit, hne, -, -⟩
              cases holdHit
              cases hnewHit
              exact absurd ⟨hcondition, hne⟩ hfires

theorem change?_of_read?_eq
    (hread : before.read? watchpoint.address.toNat watchpoint.width =
      after.read? watchpoint.address.toNat watchpoint.width) :
    watchpoint.change? before after = none := by
  unfold change?
  dsimp only
  rw [hread]
  cases after.read? watchpoint.address.toNat watchpoint.width with
  | none => rfl
  | some value => simp

theorem hit?_of_lastValue
    (hlast : watchpoint.lastValue = before.read? watchpoint.address.toNat watchpoint.width) :
    watchpoint.hit? after = watchpoint.change? before after := by
  unfold hit? change?
  rw [hlast]
  dsimp only
  cases before.read? watchpoint.address.toNat watchpoint.width with
  | none => rfl
  | some old =>
      cases after.read? watchpoint.address.toNat watchpoint.width with
      | none => rfl
      | some new => simp [canFire, and_comm]

/-- A watchpoint that no changed region touches has kept its value. -/
theorem read?_of_not_touched
    (htouched : ¬watchpoint.isTouched (before.diff after) = true) :
    before.read? watchpoint.address.toNat watchpoint.width =
      after.read? watchpoint.address.toNat watchpoint.width := by
  apply Memory.read?_congr
  intro address hlow hhigh
  exact Memory.byte_eq_of_not_overlaps before after (Bool.eq_false_iff.mpr htouched) hlow hhigh

end Watchpoint

namespace Session

/-- What the session remembers of its memory is what the memory is. -/
structure UpToDate (session : Session) : Prop where
  previous : ∀ address,
    session.previous.byte address = session.machine.memory.byte address
  lastValue : ∀ watchpoint ∈ session.watchpoints.toList,
    watchpoint.lastValue =
      session.machine.memory.read? watchpoint.address.toNat watchpoint.width

variable {session session' : Session} {program : Program} {machine : Machine}

theorem UpToDate.of_eq (huptodate : session.UpToDate)
    (hprevious : session'.previous = session.previous)
    (hmemory : session'.machine.memory = session.machine.memory)
    (hwatchpoints : session'.watchpoints = session.watchpoints) :
    session'.UpToDate where
  previous := by
    rw [hprevious, hmemory]
    exact huptodate.previous
  lastValue := by
    rw [hwatchpoints, hmemory]
    exact huptodate.lastValue

theorem UpToDate.unmark (huptodate : session.UpToDate) :
    { session with resumeFrom := none : Session }.UpToDate :=
  huptodate.of_eq rfl rfl rfl

theorem lastValue_of_prime
    (watchpoints : Watchpoints) (memory : Memory) :
    ∀ watchpoint ∈ (watchpoints.prime memory).toList,
      watchpoint.lastValue = memory.read? watchpoint.address.toNat watchpoint.width := by
  unfold Watchpoints.prime
  rw [List.forall_mem_map]
  exact fun _ _ => rfl

theorem upToDate_start (settings : Settings) (calls : Handler) :
    (start settings calls).UpToDate where
  previous _ := rfl
  lastValue := nofun

theorem upToDate_reset (session : Session) : session.reset.UpToDate where
  previous _ := rfl
  lastValue := lastValue_of_prime _ _

theorem UpToDate.accept (huptodate : session.UpToDate) :
    (session.accept program machine).2.UpToDate where
  previous address := Memory.byte_copyRegions_diff session.previous machine.memory address
  lastValue := by
    have hdiff : session.previous.diff machine.memory =
        session.machine.memory.diff machine.memory :=
      Memory.diff_congr_left huptodate.previous machine.memory
    dsimp only [Session.accept, Watchpoints.check]
    rw [List.forall_mem_map]
    intro watchpoint hmem
    -- one that is not touched is not reread, but what it remembers is still its value
    by_cases htouched : watchpoint.isTouched (session.previous.diff machine.memory) = true
    · rw [if_pos htouched]
      rfl
    · rw [if_neg htouched]
      rw [hdiff] at htouched
      exact (huptodate.lastValue watchpoint hmem).trans
        (Watchpoint.read?_of_not_touched htouched)

/-- The hits of an accepted step are the changes that it has made. -/
theorem UpToDate.hits_accept (huptodate : session.UpToDate) :
    (session.accept program machine).1 =
      session.watchpoints.toList.filterMap
        (Watchpoint.change? session.machine.memory machine.memory) := by
  have hdiff : session.previous.diff machine.memory =
      session.machine.memory.diff machine.memory :=
    Memory.diff_congr_left huptodate.previous machine.memory
  dsimp only [Session.accept, Watchpoints.check]
  rw [hdiff, List.filterMap_filter]
  apply List.filterMap_congr
  intro watchpoint hmem
  by_cases htouched :
      watchpoint.isTouched (session.machine.memory.diff machine.memory) = true
  · rw [if_pos htouched]
    exact Watchpoint.hit?_of_lastValue (huptodate.lastValue watchpoint hmem)
  · rw [if_neg htouched]
    have hread := Watchpoint.read?_of_not_touched htouched
    exact (Watchpoint.change?_of_read?_eq hread).symm

theorem UpToDate.step (huptodate : session.UpToDate) : session.step.2.UpToDate := by
  cases hprogram : session.program with
  | none =>
      rw [Session.step, hprogram]
      exact huptodate
  | some program =>
      rcases step_cases hprogram with
        ⟨-, hhalted⟩ | ⟨machine, -, haccepted⟩ | ⟨failure, machine, herror, hfailed⟩
      · rw [hhalted]
        exact huptodate.unmark
      · rw [haccepted]
        exact huptodate.unmark.accept
      · rw [hfailed]
        exact huptodate.of_eq rfl (Machine.memory_of_step_error program herror) rfl

theorem UpToDate.stepBack (huptodate : session.UpToDate) : session.stepBack.2.UpToDate := by
  unfold Session.stepBack
  split
  · exact huptodate
  · split
    · exact huptodate
    · split
      · exact huptodate.of_eq rfl rfl rfl
      · exact huptodate.of_eq rfl rfl rfl

theorem UpToDate.perform (deed : Deed) (huptodate : session.UpToDate) :
    (session.perform deed).UpToDate := by
  cases deed with
  | load program => exact upToDate_reset { session with program := some program }
  | reset => exact upToDate_reset session
  | step => exact huptodate.step
  | stepBack => exact huptodate.stepBack
  | setBreakpoints | state | rehost | mark => exact huptodate.of_eq rfl rfl rfl
  | setWatchpoints watchpoints =>
      exact ⟨huptodate.previous, lastValue_of_prime watchpoints session.machine.memory⟩

theorem Arises.upToDate {settings : Settings} (harises : session.Arises settings) :
    session.UpToDate := by
  induction harises with
  | start calls => exact upToDate_start settings calls
  | perform deed _ ih => exact ih.perform deed

theorem UpToDate.hits_step {hits : List WatchHit}
    (huptodate : session.UpToDate) (hstep : session.step.1 = .ok hits) :
    hits =
      session.watchpoints.toList.filterMap
        (Watchpoint.change? session.machine.memory session.step.2.machine.memory) := by
  cases hprogram : session.program with
  | none =>
      rw [Session.step, hprogram] at hstep
      cases hstep
  | some program =>
      rcases step_cases hprogram with
        ⟨-, hhalted⟩ | ⟨machine, -, haccepted⟩ | ⟨failure, machine, -, hfailed⟩
      · rw [hhalted] at hstep ⊢
        cases hstep
        symm
        rw [List.filterMap_eq_nil_iff]
        exact fun watchpoint _ => Watchpoint.change?_of_read?_eq rfl
      · rw [haccepted] at hstep ⊢
        cases hstep
        exact huptodate.unmark.hits_accept
      · rw [hfailed] at hstep
        cases hstep

end Session

/-- Whatever has been done to a session, and whoever its hosts are, a step that succeeds answers
the changes that it makes to watched values, in the order of the watchpoints: each is that of a
watchpoint that may fire, from the value before the step to a different one after it. -/
theorem step_reports_exactly_the_changes
    (settings : Settings) (session : Session) (hits : List WatchHit)
    (harises : session.Arises settings) (hstep : session.step.1 = .ok hits) :
    let before := session.machine.memory
    let after := session.step.2.machine.memory
    hits = session.watchpoints.toList.filterMap (Watchpoint.change? before after) ∧
      ∀ hit, hit ∈ hits ↔
        ∃ watchpoint ∈ session.watchpoints.toList,
          watchpoint.condition ≠ some .read ∧
            before.read? watchpoint.address.toNat watchpoint.width = some hit.old ∧
            after.read? watchpoint.address.toNat watchpoint.width = some hit.new ∧
            hit.old ≠ hit.new ∧
            hit.address = watchpoint.address ∧ hit.width = watchpoint.width := by
  intro before after
  have hhits := harises.upToDate.hits_step hstep
  refine ⟨hhits, fun hit => ?_⟩
  rw [hhits, List.mem_filterMap]
  simp only [Watchpoint.change?_eq_some_iff]
  rfl

/-- Two stores that overlap. -/
def Program.storing : Program where
  instructions :=
    #[{ opcode := .store, operands := [.memory (.absolute 16), .immediate 258],
        line := 1, column := 1, source := "STORE [16], 258".toList, address := 0 },
      { opcode := .store, operands := [.memory (.absolute 17), .immediate 0],
        line := 2, column := 1, source := "STORE [17], 0".toList, address := 1 }]
  symbols := {}
  data := #[]
  textStart := 0
  dataStart := 0

/-- The second store changes two of four watched values that it may touch. -/
theorem step_reports_exactly_the_changes_storing :
    let watchpoints : List Watchpoint :=
      [{ address := 16, width := 1 }, { address := 16, width := 2 },
        { address := 17, width := 1, condition := some .read },
        { address := 17, width := 4, condition := some .write }]
    let operations : List Operation := [.load .storing, .step, .setWatchpoints ⟨watchpoints⟩]
    let session := (Session.start {} .standard).operateAll operations
    session.step.1 =
      .ok [{ address := 16, width := 2, old := 258, new := 2 },
        { address := 17, width := 4, old := 1, new := 0 }] := by
  intro watchpoints operations session
  have hstart : (Session.start {} .standard).Arises {} := .start .standard
  have harises : session.Arises {} := hstart.operateAll operations
  cases hstep : session.step.1 with
  | error stop =>
      have hok : session.step.1.isOk = true := by decide +kernel
      rw [hstep] at hok
      cases hok
  | ok hits =>
      have hreported := step_reports_exactly_the_changes {} session hits harises hstep
      have hchanges : session.watchpoints.toList.filterMap
          (Watchpoint.change? session.machine.memory session.step.2.machine.memory) =
            [{ address := 16, width := 2, old := 258, new := 2 },
              { address := 17, width := 4, old := 1, new := 0 }] := by
        decide +kernel
      rw [hreported.1, hchanges]

end WordMachine
