import WordMachine.Proofs.MaximalRuns
import WordMachine.Proofs.SessionHistory
import WordMachine.Proofs.WatchHits

/-!
# What a state reports as changed

A state lists what has changed in memory since a baseline.  Taking a state makes
the present memory the baseline, and so does a load or a reset, which replaces
memory and reports nothing of that.  Between two states with neither in between,
the second reports exactly the maximal runs of bytes that differ from the first;
behind a load or a reset it reports what differs from the memory it has set up.
-/

namespace WordMachine

/-- Whether the deed makes the memory that it leaves behind the baseline of the next state. -/
def Deed.setsBaseline : Deed → Bool
  | .load _ | .reset | .state => true
  | .step | .stepBack | .setBreakpoints _ | .setWatchpoints _ | .rehost _ | .mark _ => false

def Deed.isState : Deed → Bool
  | .state => true
  | _ => false

namespace Session

variable {session : Session} {baseline : Memory}

/-- The baseline after deeds that follow one another. -/
def baselineAfter (session : Session) (baseline : Memory) : List Deed → Memory
  | [] => baseline
  | deed :: deeds =>
      let after := session.perform deed
      after.baselineAfter (if deed.setsBaseline then after.machine.memory else baseline) deeds

theorem baselineAfter_append (session : Session) (baseline : Memory) (deeds later : List Deed) :
    session.baselineAfter baseline (deeds ++ later) =
      (session.performAll deeds).baselineAfter (session.baselineAfter baseline deeds) later := by
  induction deeds generalizing session baseline with
  | nil => rfl
  | cons deed deeds ih => exact ih _ _

theorem baselineAfter_of_kept {deeds : List Deed}
    (hkept : ∀ deed ∈ deeds, deed.setsBaseline = false) :
    session.baselineAfter baseline deeds = baseline := by
  induction deeds generalizing session with
  | nil => rfl
  | cons deed deeds ih =>
      obtain ⟨hdeed, hlater⟩ := List.forall_mem_cons.mp hkept
      rw [baselineAfter, hdeed]
      exact ih hlater

/-- The last deed that sets the baseline decides. -/
theorem baselineAfter_of_set {deeds later : List Deed} {deed : Deed}
    (hset : deed.setsBaseline = true) (hlater : ∀ deed ∈ later, deed.setsBaseline = false) :
    session.baselineAfter baseline (deeds ++ deed :: later) =
      (session.performAll (deeds ++ [deed])).machine.memory := by
  rw [baselineAfter_append, baselineAfter, hset, performAll_append]
  exact baselineAfter_of_kept hlater

/-! ## The image that a session keeps of the baseline -/

/-- The session knows the baseline. -/
def Reports (session : Session) (baseline : Memory) : Prop :=
  ∀ address, session.reported.byte address = baseline.byte address

theorem reported_step (session : Session) : session.step.2.reported = session.reported := by
  cases hprogram : session.program with
  | none => rw [step, hprogram]
  | some program =>
      rcases step_cases hprogram with
        ⟨-, hstep⟩ | ⟨machine, -, hstep⟩ | ⟨failure, machine, -, hstep⟩
      · rw [hstep]
      · rw [hstep]
        rfl
      · rw [hstep]

theorem reported_stepBack (session : Session) :
    session.stepBack.2.reported = session.reported := by
  unfold stepBack
  split
  · rfl
  · split
    · rfl
    · split
      · rfl
      · rfl

theorem reports_state (session : Session) : session.state.2.Reports session.machine.memory :=
  Memory.byte_copyRegions_diff session.reported session.machine.memory

theorem Reports.perform (hreports : session.Reports baseline) (deed : Deed) :
    (session.perform deed).Reports
      (if deed.setsBaseline then (session.perform deed).machine.memory else baseline) := by
  cases deed with
  | load | reset => exact fun _ => rfl
  | state => exact reports_state session
  | step =>
      intro address
      rw [Session.perform, reported_step]
      exact hreports address
  | stepBack =>
      intro address
      rw [Session.perform, reported_stepBack]
      exact hreports address
  | setBreakpoints | setWatchpoints | rehost | mark => exact hreports

theorem Reports.performAll (hreports : session.Reports baseline) (deeds : List Deed) :
    (session.performAll deeds).Reports (session.baselineAfter baseline deeds) := by
  induction deeds generalizing session baseline with
  | nil => exact hreports
  | cons deed deeds ih => exact ih (hreports.perform deed)

theorem changed_state (session : Session) :
    session.state.1.changed = session.reported.diff session.machine.memory := by
  simp only [state]

theorem Reports.changed_state (hreports : session.Reports baseline) :
    session.state.1.changed = baseline.diff session.machine.memory := by
  rw [Session.changed_state]
  exact Memory.diff_congr_left hreports session.machine.memory

end Session

/-- Of two states taken with any operations in between, the second reports the maximal runs of
bytes that differ from the baseline, so copying these brings the baseline up to date.  The
baseline is the memory of the first state, unless memory has been loaded or reset or a run has
taken another state in between; then it is the memory right after the last time. -/
theorem state_reports_changes_since_baseline (session : Session) (operations : List Operation) :
    let taken := session.state.2
    let deeds := taken.allDeeds operations
    let baseline := taken.baselineAfter session.machine.memory deeds
    let memory := (taken.operateAll operations).machine.memory
    let changed := (taken.operateAll operations).state.1.changed
    Region.AreRuns (baseline.differs memory) changed ∧
      (∀ regions, Region.AreRuns (baseline.differs memory) regions → regions = changed) ∧
        (∀ address, (baseline.copyRegions memory changed).byte address = memory.byte address) ∧
          ((∀ deed ∈ deeds, deed.setsBaseline = false) → baseline = session.machine.memory) ∧
            ∀ earlier deed later,
              deeds = earlier ++ deed :: later → deed.setsBaseline = true →
                (∀ deed ∈ later, deed.setsBaseline = false) →
                  baseline = (taken.performAll (earlier ++ [deed])).machine.memory := by
  intro taken deeds baseline memory changed
  have hreports : (taken.operateAll operations).Reports baseline := by
    rw [← Session.performAll_allDeeds]
    exact (Session.reports_state session).performAll deeds
  have hchanged : changed = baseline.diff memory := hreports.changed_state
  have hruns : Region.AreRuns (baseline.differs memory) changed := by
    rw [hchanged]
    exact Memory.areRuns_diff baseline memory
  refine ⟨hruns, fun regions hregions => hregions.unique hruns, ?_, ?_, ?_⟩
  · rw [hchanged]
    exact Memory.byte_copyRegions_diff baseline memory
  · exact Session.baselineAfter_of_kept
  · intro earlier deed later hdeeds hset hlater
    have hbaseline : baseline = taken.baselineAfter session.machine.memory deeds := rfl
    rw [hbaseline, hdeeds]
    exact Session.baselineAfter_of_set hset hlater

/-- A second store beside the first, a watchpoint and a step back between two states. -/
theorem state_reports_changes_since_baseline_storing :
    let session := ((Session.start {} .standard).load .storing).step.2
    let operations : List Operation := [.step, .setWatchpoints {}, .stepBack]
    let later := session.state.2.operateAll operations
    later.state.1.changed = [⟨17, 1⟩] := by
  intro session operations later
  obtain ⟨-, hunique, -, hkept, -⟩ := state_reports_changes_since_baseline session operations
  have hbaseline := hkept (by decide)
  rw [hbaseline] at hunique
  have hmemory : later.machine.memory = session.machine.memory.setWord 17 0 := by rfl
  have hdiffers : ∀ address, (⟨17, 1⟩ : Region).covers address =
      session.machine.memory.differs later.machine.memory address := by
    intro address
    by_cases hword : address = 17 ∨ address = 18
    · rcases hword with rfl | rfl <;> decide +kernel
    · have houtside : ¬address = 17 + 1 ∧ ¬address = 17 := by omega
      have hbyte : later.machine.memory.byte address = session.machine.memory.byte address := by
        rw [hmemory, Memory.byte_setWord _ _ (by decide), if_neg houtside.1, if_neg houtside.2]
      rw [Memory.differs, hbyte, bne_self_eq_false, ← Bool.not_eq_true, Region.covers_iff,
        Region.finish]
      dsimp only
      omega
  have hruns : Region.AreRuns (session.machine.memory.differs later.machine.memory) [⟨17, 1⟩] :=
    ⟨by simp, List.pairwise_singleton _ _, by simpa using hdiffers⟩
  exact (hunique _ hruns).symm

/-- A reset takes back a store that the first state showed, and the second state is silent. -/
theorem reset_is_not_reported :
    ¬∀ (session : Session) (operations : List Operation),
      (∀ deed ∈ session.state.2.allDeeds operations, deed.isState = false) →
        let later := session.state.2.operateAll operations
        Region.AreRuns (session.machine.memory.differs later.machine.memory)
          later.state.1.changed := by
  intro hclaim
  let session := ((Session.start {} .standard).load .storing).step.2
  let later := session.state.2.operateAll [.reset]
  have hruns := hclaim session [.reset] (by decide)
  have hcovers := Memory.any_covers_diff later.reported later.machine.memory 16
  have hchanged := hruns.covers 16
  rw [Session.changed_state] at hchanged
  have hstored : session.machine.memory.differs later.machine.memory 16 = true := by
    decide +kernel
  have hsame : later.reported.differs later.machine.memory 16 = false := by decide +kernel
  rw [hstored] at hchanged
  rw [hsame] at hcovers
  exact absurd (hcovers.symm.trans hchanged) nofun

end WordMachine
