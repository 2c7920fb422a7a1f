import WordMachine.Proofs.ChangedRegions
import Mathlib.Data.List.Basic

/-!
# Differences as maximal runs

The difference of two memories lists the maximal runs of addresses at which they
differ, in increasing order.  No other list of regions does: neighbours would be
one run, and a region that could be split or left out would cover something else.
A range of addresses meets one of the runs exactly if it holds a difference.
-/

namespace WordMachine

namespace Region

/-- The maximal runs of addresses on which a predicate holds, in increasing order. -/
structure AreRuns (differs : Nat → Bool) (regions : List Region) : Prop where
  nonempty : ∀ region ∈ regions, 0 < region.length
  /-- Between two runs there is an address at least. -/
  apart : regions.Pairwise fun first second => first.finish < second.start
  covers : ∀ address, regions.any (·.covers address) = differs address

namespace AreRuns

variable {differs : Nat → Bool} {region other : Region} {rest others : List Region}
  {regions : List Region} {address start length : Nat}

theorem differs_iff (hruns : AreRuns differs (region :: rest)) (address : Nat) :
    differs address = true ↔
      (region.start ≤ address ∧ address < region.finish) ∨
        rest.any (·.covers address) = true := by
  rw [← hruns.covers, List.any_cons, Bool.or_eq_true, covers_iff]

/-- What the later runs cover lies behind the end of the first. -/
theorem finish_lt (hruns : AreRuns differs (region :: rest))
    (hcovered : rest.any (·.covers address) = true) : region.finish < address := by
  obtain ⟨later, hlater, hcovers⟩ := List.any_eq_true.mp hcovered
  have hapart := (List.pairwise_cons.mp hruns.apart).1 later hlater
  have hstart := ((covers_iff later address).mp hcovers).1
  omega

theorem start_lt_finish (hruns : AreRuns differs (region :: rest)) :
    region.start < region.finish := by
  have hlength := hruns.nonempty region List.mem_cons_self
  unfold finish
  omega

theorem start_le (hruns : AreRuns differs (region :: rest)) (hdiffers : differs address = true) :
    region.start ≤ address := by
  rcases (hruns.differs_iff address).mp hdiffers with hfirst | hlater
  · exact hfirst.1
  · have hbehind := hruns.finish_lt hlater
    have hregion := hruns.start_lt_finish
    omega

theorem differs_of_lt_finish (hruns : AreRuns differs (region :: rest))
    (hstart : region.start ≤ address) (hfinish : address < region.finish) :
    differs address = true :=
  (hruns.differs_iff address).mpr (.inl ⟨hstart, hfinish⟩)

theorem agrees_at_finish (hruns : AreRuns differs (region :: rest)) :
    ¬differs region.finish = true := by
  intro hdiffers
  rcases (hruns.differs_iff region.finish).mp hdiffers with hfirst | hlater
  · omega
  · exact absurd (hruns.finish_lt hlater) (Nat.lt_irrefl _)

/-- Behind the first run, the others are the runs. -/
theorem tail (hruns : AreRuns differs (region :: rest)) :
    AreRuns (fun address => differs address && decide (region.finish < address)) rest where
  nonempty later hlater := hruns.nonempty later (List.mem_cons_of_mem region hlater)
  apart := (List.pairwise_cons.mp hruns.apart).2
  covers address := by
    rw [Bool.eq_iff_iff, Bool.and_eq_true, decide_eq_true_iff, hruns.differs_iff]
    constructor
    · exact fun hcovered => ⟨.inr hcovered, hruns.finish_lt hcovered⟩
    · rintro ⟨hfirst | hlater, hbehind⟩
      · omega
      · exact hlater

theorem head_eq (hruns : AreRuns differs (region :: rest))
    (hother : AreRuns differs (other :: others)) : region = other := by
  have hstart : region.start = other.start := by
    have hfirst := hruns.differs_of_lt_finish (Nat.le_refl _) hruns.start_lt_finish
    have hsecond := hother.differs_of_lt_finish (Nat.le_refl _) hother.start_lt_finish
    exact Nat.le_antisymm (hruns.start_le hsecond) (hother.start_le hfirst)
  have hfinish : region.finish = other.finish := by
    -- a run that ended earlier would end where the other one still differs
    rcases Nat.lt_trichotomy region.finish other.finish with hlt | heq | hgt
    · refine absurd (hother.differs_of_lt_finish ?_ hlt) hruns.agrees_at_finish
      have hregion := hruns.start_lt_finish
      omega
    · exact heq
    · refine absurd (hruns.differs_of_lt_finish ?_ hgt) hother.agrees_at_finish
      have hregion := hother.start_lt_finish
      omega
  cases region
  cases other
  simp only [finish] at hstart hfinish
  rw [mk.injEq]
  omega

/-- There is one list of maximal runs. -/
theorem unique {regions' : List Region} (hruns : AreRuns differs regions)
    (hruns' : AreRuns differs regions') : regions = regions' := by
  induction regions generalizing differs regions' with
  | nil =>
      cases regions' with
      | nil => rfl
      | cons other others =>
          have hdiffers := hruns'.differs_of_lt_finish (Nat.le_refl _) hruns'.start_lt_finish
          rw [← hruns.covers] at hdiffers
          cases hdiffers
  | cons region rest ih =>
      cases regions' with
      | nil =>
          have hdiffers := hruns.differs_of_lt_finish (Nat.le_refl _) hruns.start_lt_finish
          rw [← hruns'.covers] at hdiffers
          cases hdiffers
      | cons other others =>
          obtain rfl := hruns.head_eq hruns'
          rw [ih hruns.tail hruns'.tail]

theorem eq_nil_iff (hruns : AreRuns differs regions) :
    regions = [] ↔ ∀ address, differs address = false := by
  constructor
  · rintro rfl address
    rw [← hruns.covers, List.any_nil]
  · intro hagree
    have hnone : AreRuns differs [] := ⟨nofun, .nil, fun address => (hagree address).symm⟩
    exact hruns.unique hnone

/-- Runs end where the predicate ends. -/
theorem finish_le {bound : Nat} (hruns : AreRuns differs regions)
    (hbound : ∀ address, differs address = true → address < bound) (hmem : region ∈ regions) :
    region.finish ≤ bound := by
  have hlength := hruns.nonempty region hmem
  have hlast : region.covers (region.finish - 1) = true := by
    rw [covers_iff, finish]
    omega
  have hdiffers := hruns.covers (region.finish - 1)
  rw [List.any_eq_true.mpr ⟨region, hmem, hlast⟩] at hdiffers
  have hlt := hbound (region.finish - 1) hdiffers.symm
  omega

/-- A range that is not empty meets a run exactly if the predicate holds somewhere in it. -/
theorem any_overlaps_iff (hruns : AreRuns differs regions) (hlength : 0 < length) :
    regions.any (·.overlaps start length) = true ↔
      ∃ address, start ≤ address ∧ address < start + length ∧ differs address = true := by
  constructor
  · intro hoverlaps
    obtain ⟨region, hmem, hmeets⟩ := List.any_eq_true.mp hoverlaps
    simp only [overlaps, Bool.and_eq_true, decide_eq_true_eq] at hmeets
    have hregion := hruns.nonempty region hmem
    have hcovers : region.covers (max start region.start) = true := by
      rw [covers_iff]
      unfold finish at hmeets ⊢
      omega
    refine ⟨max start region.start, Nat.le_max_left _ _, by omega, ?_⟩
    rw [← hruns.covers]
    exact List.any_eq_true.mpr ⟨region, hmem, hcovers⟩
  · rintro ⟨address, hlow, hhigh, hdiffers⟩
    rw [← hruns.covers] at hdiffers
    obtain ⟨region, hmem, hcovers⟩ := List.any_eq_true.mp hdiffers
    exact List.any_eq_true.mpr ⟨region, hmem, overlaps_of_covers hcovers hlow hhigh⟩

end AreRuns

/-! ## The regions that are found are maximal runs -/

/-- A scan of all addresses where the predicate may hold finds its runs. -/
theorem Scanned.areRuns {differs : Nat → Bool} {bound : Nat} {regions : List Region}
    (hscanned : Scanned differs bound regions.reverse)
    (hbound : ∀ address, differs address = true → address < bound) :
    AreRuns differs regions where
  nonempty region hmem := hscanned.nonempty region (List.mem_reverse.mpr hmem)
  apart := List.pairwise_reverse.mp hscanned.apart
  covers address := by
    rw [← List.any_reverse, hscanned.covers]
    cases hdiffers : differs address with
    | false => exact Bool.and_false _
    | true => rw [decide_eq_true (hbound address hdiffers), Bool.and_true]

end Region

namespace Memory

/-- The difference of two memories lists the maximal runs on which they differ. -/
theorem areRuns_diff (before after : Memory) :
    Region.AreRuns (before.differs after) (before.diff after) := by
  refine (scanned_diff before after).areRuns fun address hdiffers => ?_
  refine Decidable.byContradiction fun houtside => ?_
  rw [differs_of_size_le before after (Nat.le_of_not_lt houtside)] at hdiffers
  cases hdiffers

/-- What a memory is compared to matters for its bytes only. -/
theorem diff_congr_left {memory other : Memory}
    (h : ∀ address, memory.byte address = other.byte address) (after : Memory) :
    memory.diff after = other.diff after := by
  have hdiffers : memory.differs after = other.differs after := by
    funext address
    rw [differs, differs, h address]
  have hruns := areRuns_diff memory after
  rw [hdiffers] at hruns
  exact hruns.unique (areRuns_diff other after)

end Memory
end WordMachine
