import WordMachine.Debug.Region

/-!
# What changed regions cover

The difference of two memories covers exactly the addresses at which they differ.
So copying the regions of a difference brings the older memory up to date, and a
range of addresses that holds a difference meets one of the regions.
-/

namespace WordMachine

namespace Region

def covers (region : Region) (address : Nat) : Bool :=
  decide (region.start ≤ address) && decide (address < region.finish)

theorem covers_iff (region : Region) (address : Nat) :
    region.covers address = true ↔ region.start ≤ address ∧ address < region.finish := by
  simp [covers]

theorem overlaps_of_covers {region : Region} {address start length : Nat}
    (hcovers : region.covers address = true)
    (hlow : start ≤ address) (hhigh : address < start + length) :
    region.overlaps start length = true := by
  have hregion := (region.covers_iff address).mp hcovers
  have hstart : start < region.finish := by omega
  have hregionStart : region.start < start + length := by omega
  simp [overlaps, hstart, hregionStart]

/-- A byte that differs makes the latest region longer, or begins one behind it. -/
theorem note_cases {address : Nat} (hsize : address < 65536) (found : List Region) :
    (∃ region rest, found = region :: rest ∧ region.finish = address ∧
        note address found = ⟨region.start, region.length + 1⟩ :: rest) ∨
      (∀ region ∈ found.head?, region.finish ≠ address) ∧
        note address found = ⟨address, 1⟩ :: found := by
  have hstart : address % 65536 = address := Nat.mod_eq_of_lt hsize
  have hcounted : address % 4294967296 = address := Nat.mod_eq_of_lt (by omega)
  cases found with
  | nil =>
      rw [note, hstart]
      exact .inr ⟨nofun, rfl⟩
  | cons region rest =>
      rw [note, hstart, hcounted]
      split
      case isTrue hadjacent => exact .inl ⟨region, rest, rfl, hadjacent, rfl⟩
      case isFalse happart =>
        refine .inr ⟨fun latest hlatest => ?_, rfl⟩
        cases hlatest
        exact happart

theorem any_covers_note {address : Nat} {found : List Region} (hsize : address < 65536)
    (other : Nat) :
    (note address found).any (·.covers other) =
      (other == address || found.any (·.covers other)) := by
  obtain ⟨region, rest, rfl, hadjacent, hnote⟩ | ⟨-, hnote⟩ := note_cases hsize found
  · have hgrown : (⟨region.start, region.length + 1⟩ : Region).covers other =
        (other == address || region.covers other) := by
      rw [Bool.eq_iff_iff, Bool.or_eq_true, covers_iff, covers_iff, beq_iff_eq]
      dsimp only [finish] at hadjacent ⊢
      omega
    rw [hnote, List.any_cons, List.any_cons, hgrown, Bool.or_assoc]
  · have hsingle : (⟨address, 1⟩ : Region).covers other = (other == address) := by
      rw [Bool.eq_iff_iff, covers_iff, beq_iff_eq]
      dsimp only [finish]
      omega
    rw [hnote, List.any_cons, hsingle]

/-! ## The scan -/

/-- What a scan has found, latest first, once it has come to an address. -/
structure Scanned (differs : Nat → Bool) (bound : Nat) (found : List Region) : Prop where
  nonempty : ∀ region ∈ found, 0 < region.length
  /-- Between two regions there is an address at least. -/
  apart : found.Pairwise fun later earlier => earlier.finish < later.start
  finish_le : ∀ region ∈ found, region.finish ≤ bound
  covers : ∀ address,
    found.any (·.covers address) = (decide (address < bound) && differs address)

namespace Scanned

variable {differs : Nat → Bool} {bound : Nat} {found : List Region}

theorem start (differs : Nat → Bool) : Scanned differs 0 [] where
  nonempty := nofun
  apart := .nil
  finish_le := nofun
  covers _ := rfl

/-- Addresses that agree may be passed over. -/
theorem pass (hscanned : Scanned differs bound found) (count : Nat)
    (hagree : ∀ address, bound ≤ address → address < bound + count → differs address = false) :
    Scanned differs (bound + count) found where
  nonempty := hscanned.nonempty
  apart := hscanned.apart
  finish_le region hmem := Nat.le_add_right_of_le (hscanned.finish_le region hmem)
  covers address := by
    rw [hscanned.covers]
    by_cases hbefore : address < bound
    · have hbound : address < bound + count := by omega
      rw [decide_eq_true hbefore, decide_eq_true hbound]
    · by_cases hpassed : address < bound + count
      · rw [hagree address (Nat.le_of_not_lt hbefore) hpassed, Bool.and_false, Bool.and_false]
      · rw [decide_eq_false hbefore, decide_eq_false hpassed]

/-- What lies apart from the latest region lies apart from all that is found. -/
theorem finish_lt (hscanned : Scanned differs bound found)
    (hlatest : ∀ region ∈ found.head?, region.finish ≠ bound) :
    ∀ region ∈ found, region.finish < bound := by
  cases found with
  | nil => nofun
  | cons latest rest =>
      have hbelow : latest.finish < bound :=
        Nat.lt_of_le_of_ne (hscanned.finish_le latest List.mem_cons_self) (hlatest latest rfl)
      refine List.forall_mem_cons.mpr ⟨hbelow, fun earlier hmem => ?_⟩
      have hearlier := (List.pairwise_cons.mp hscanned.apart).1 earlier hmem
      unfold finish at hbelow hearlier ⊢
      omega

/-- An address that differs is noted. -/
theorem note (hscanned : Scanned differs bound found) (hdiffers : differs bound = true)
    (hsize : bound < 65536) : Scanned differs (bound + 1) (note bound found) := by
  have hbefore : ∀ region ∈ found, region.finish ≤ bound + 1 := fun region hmem =>
    Nat.le_succ_of_le (hscanned.finish_le region hmem)
  have hcovers : ∀ address, (Region.note bound found).any (·.covers address) =
      (decide (address < bound + 1) && differs address) := by
    intro address
    rw [any_covers_note hsize, hscanned.covers]
    by_cases hlast : address = bound
    · subst hlast
      rw [beq_self_eq_true, Bool.true_or, hdiffers, decide_eq_true (Nat.lt_succ_self address),
        Bool.and_true]
    · have hlt : address < bound + 1 ↔ address < bound := by omega
      rw [beq_false_of_ne hlast, Bool.false_or, decide_eq_decide.mpr hlt]
  obtain ⟨region, rest, rfl, hadjacent, hnote⟩ | ⟨hlatest, hnote⟩ := note_cases hsize found
  · have hgrown : (⟨region.start, region.length + 1⟩ : Region).finish = bound + 1 :=
      congrArg (· + 1) hadjacent
    rw [hnote] at hcovers ⊢
    exact
      { nonempty := List.forall_mem_cons.mpr
          ⟨Nat.succ_pos _, (List.forall_mem_cons.mp hscanned.nonempty).2⟩
        apart := List.pairwise_cons.mpr (List.pairwise_cons.mp hscanned.apart)
        finish_le := List.forall_mem_cons.mpr
          ⟨Nat.le_of_eq hgrown, (List.forall_mem_cons.mp hbefore).2⟩
        covers := hcovers }
  · rw [hnote] at hcovers ⊢
    exact
      { nonempty := List.forall_mem_cons.mpr ⟨Nat.one_pos, hscanned.nonempty⟩
        apart := List.pairwise_cons.mpr ⟨hscanned.finish_lt hlatest, hscanned.apart⟩
        finish_le := List.forall_mem_cons.mpr ⟨Nat.le_refl _, hbefore⟩
        covers := hcovers }

theorem scanBytes {count : Nat} (hscanned : Scanned differs bound found)
    (hsize : bound + count ≤ 65536) :
    Scanned differs (bound + count) (scanBytes differs bound count found) := by
  induction count generalizing bound found with
  | zero => exact hscanned
  | succ count ih =>
      have hnext : Scanned differs (bound + 1)
          (if differs bound then Region.note bound found else found) := by
        cases hdiffers : differs bound with
        | true => exact hscanned.note hdiffers (by omega)
        | false =>
            refine hscanned.pass 1 fun address hlow hhigh => ?_
            obtain rfl : address = bound := by omega
            exact hdiffers
      have hrest := ih hnext (by omega)
      rw [Region.scanBytes]
      rwa [Nat.add_right_comm] at hrest

end Scanned

/-- Chunks that are found to agree do. -/
def ChunksAgree (agrees : Nat → Nat → Bool) (differs : Nat → Bool) (size : Nat) : Prop :=
  ∀ index, let start := chunk * index
    agrees start (min chunk (size - start)) = true → ∀ address, start ≤ address →
      address < start + min chunk (size - start) → differs address = false

namespace Scanned

variable {agrees : Nat → Nat → Bool} {differs : Nat → Bool} {size index count : Nat}
  {found : List Region}

theorem scanChunks (hagrees : ChunksAgree agrees differs size) (hsize : size ≤ 65536)
    (hcount : chunk * (index + count) < size + chunk)
    (hscanned : Scanned differs (min (chunk * index) size) found) :
    Scanned differs (min (chunk * (index + count)) size)
      (scanChunks agrees differs size index count found) := by
  induction count generalizing index found with
  | zero => exact hscanned
  | succ count ih =>
      unfold chunk at hcount hscanned
      have hstart : min (64 * index) size = 64 * index := by omega
      have hfinish : 64 * index + min 64 (size - 64 * index) = min (64 * (index + 1)) size := by
        omega
      rw [hstart] at hscanned
      have hnext : Scanned differs (min (chunk * (index + 1)) size)
          (if agrees (chunk * index) (min chunk (size - chunk * index)) then found
            else Region.scanBytes differs (chunk * index) (min chunk (size - chunk * index))
              found) := by
        rw [chunk, ← hfinish]
        split
        case isTrue hequal => exact hscanned.pass _ (hagrees index hequal)
        case isFalse => exact hscanned.scanBytes (by omega)
      have hrest := ih (by rw [Nat.add_right_comm]; exact hcount) hnext
      rw [Region.scanChunks]
      rwa [Nat.add_right_comm] at hrest

end Scanned

/-- A scan that passes over chunks that agree comes to the end of the images. -/
theorem scanned_scan {agrees : Nat → Nat → Bool} {differs : Nat → Bool} {size : Nat}
    (hagrees : ChunksAgree agrees differs size) (hsize : size ≤ 65536) :
    Scanned differs size (scan agrees differs size).reverse := by
  have hchunks : chunk * (0 + (size + chunk - 1) / chunk) < size + chunk ∧
      size ≤ chunk * (0 + (size + chunk - 1) / chunk) := by
    unfold chunk
    omega
  have hscanned : Scanned differs (min (chunk * 0) size) [] := by
    rw [Nat.mul_zero, Nat.zero_min]
    exact .start differs
  have hrun := hscanned.scanChunks hagrees hsize hchunks.1
  rw [Nat.min_eq_right hchunks.2] at hrun
  rwa [scan, List.reverse_reverse]

end Region

namespace Memory

variable (before after : Memory)

theorem differs_of_size_le {address : Nat} (h : size ≤ address) :
    before.differs after address = false := by
  rw [differs, byte_of_size_le before h, byte_of_size_le after h, bne_self_eq_false]

theorem byte_of_page_eq {address : Nat} (hlt : address < size)
    (heq : before.pages[address / 256]? = after.pages[address / 256]?) :
    before.byte address = after.byte address := by
  have hpage := page_lt hlt
  rw [Vector.getElem?_eq_getElem hpage, Vector.getElem?_eq_getElem hpage,
    Option.some.injEq] at heq
  simp only [byte, page, heq, dif_pos hlt]

theorem byte_of_slice_eq {start length address : Nat}
    (heq : before.slice start length = after.slice start length) (hlow : start ≤ address)
    (hhigh : address < start + length) : before.byte address = after.byte address := by
  by_cases hlt : address < size
  · have hindex : address - start < length ∧ start + (address - start) < size := by omega
    have hbytes := congrArg (·[address - start]?) heq
    simp only [getElem?_slice, if_pos hindex] at hbytes
    rwa [Option.some.injEq, Nat.add_sub_cancel' hlow] at hbytes
  · rw [byte_of_size_le _ (Nat.le_of_not_lt hlt), byte_of_size_le _ (Nat.le_of_not_lt hlt)]

/-- A chunk lies on one page. -/
theorem chunks_agree :
    Region.ChunksAgree (before.chunksAgree after) (before.differs after) size := by
  intro index start hagrees address hlow hhigh
  rw [Memory.chunksAgree, Bool.or_eq_true, decide_eq_true_iff, beq_iff_eq] at hagrees
  have hbyte : before.byte address = after.byte address := by
    rcases hagrees with hpage | hslice
    · have hstart : start / 256 = address / 256 := by
        unfold start Region.chunk at hlow hhigh ⊢
        omega
      have hlt : address < size := by omega
      exact byte_of_page_eq before after hlt (hstart ▸ hpage)
    · exact byte_of_slice_eq before after hslice hlow hhigh
  rw [differs, hbyte, bne_self_eq_false]

theorem scanned_diff :
    Region.Scanned (before.differs after) size (before.diff after).reverse := by
  have hsize : size ≤ 65536 := Nat.le_refl 65536
  exact Region.scanned_scan (chunks_agree before after) hsize

theorem any_covers_diff (address : Nat) :
    (before.diff after).any (·.covers address) = before.differs after address := by
  rw [← List.any_reverse, (scanned_diff before after).covers]
  by_cases hsize : address < size
  · rw [decide_eq_true hsize, Bool.true_and]
  · rw [differs_of_size_le before after (Nat.le_of_not_lt hsize), Bool.and_false]

/-! ## Copying regions -/

theorem byte_load_slice (memory source : Memory) (region : Region) (address : Nat) :
    (memory.load region.start (source.slice region.start region.length)).byte address =
      if region.covers address then source.byte address else memory.byte address := by
  by_cases hsize : address < size
  · rw [byte_load _ _ _ hsize, getElem?_slice]
    by_cases hstart : region.start ≤ address
    · have hback : region.start + (address - region.start) = address := by omega
      rw [if_pos hstart, hback]
      by_cases hlength : address - region.start < region.length
      · have hcovers : region.covers address = true := by
          rw [Region.covers_iff, Region.finish]
          omega
        rw [if_pos ⟨hlength, hsize⟩, if_pos hcovers, Option.getD_some]
      · have hcovers : ¬region.covers address = true := by
          rw [Region.covers_iff, Region.finish]
          omega
        rw [if_neg (fun h => hlength h.1), if_neg hcovers, Option.getD_none]
    · have hcovers : ¬region.covers address = true := by
        rw [Region.covers_iff]
        omega
      rw [if_neg hstart, if_neg hcovers]
  · have hlarge : size ≤ address := Nat.le_of_not_lt hsize
    simp only [byte_of_size_le _ hlarge, ite_self]

theorem byte_copyRegions (memory source : Memory) (regions : List Region) (address : Nat) :
    (memory.copyRegions source regions).byte address =
      if regions.any (·.covers address) then source.byte address else memory.byte address := by
  unfold copyRegions
  induction regions generalizing memory with
  | nil => rfl
  | cons region rest ih =>
      rw [List.foldl_cons, ih, List.any_cons, byte_load_slice]
      cases region.covers address with
      | true => simp
      | false => simp

/-- Copying what has changed brings a memory up to date. -/
theorem byte_copyRegions_diff (address : Nat) :
    (before.copyRegions after (before.diff after)).byte address = after.byte address := by
  rw [byte_copyRegions, any_covers_diff, differs]
  by_cases heq : before.byte address = after.byte address
  · rw [heq, ite_self]
  · rw [if_pos (bne_iff_ne.mpr heq)]

/-- Where no region of the difference meets a range, the memories agree on it. -/
theorem byte_eq_of_not_overlaps {start width : Nat}
    (hregions : (before.diff after).any (·.overlaps start width) = false) {address : Nat}
    (hlow : start ≤ address) (hhigh : address < start + width) :
    before.byte address = after.byte address := by
  refine Decidable.byContradiction fun hne => ?_
  have hcovered : (before.diff after).any (·.covers address) = true := by
    rw [any_covers_diff]
    exact bne_iff_ne.mpr hne
  obtain ⟨region, hregion, hcovers⟩ := List.any_eq_true.mp hcovered
  have hoverlaps := Region.overlaps_of_covers hcovers hlow hhigh
  rw [List.any_eq_false] at hregions
  exact hregions region hregion hoverlaps

end Memory
end WordMachine
