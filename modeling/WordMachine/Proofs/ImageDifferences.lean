import WordMachine.Proofs.MaximalRuns

/-!
# Differences of images

The difference of two images of one size is the list of maximal runs of addresses
at which they differ, wherever these begin and end.  So it is empty for equal
images only, patching the older image at the runs gives the newer one, and a
range of addresses meets a run exactly if one of its bytes differs.  The difference
of two memories is that of their images.
-/

namespace WordMachine

namespace Region

/-- Whether two images differ at an address. -/
def imagesDiffer (before after : ByteArray) (address : Nat) : Bool :=
  before[address]? != after[address]?

/-- Copy the bytes of another image in at some regions. -/
def patch (image source : ByteArray) (regions : List Region) : ByteArray :=
  regions.foldl
    (fun image region => source.copySlice region.start image region.start region.length) image

variable {before after : ByteArray}

/-! ## The runs of a difference -/

theorem imagesDiffer_eq (hsize : before.size = after.size) (address : Nat) :
    imagesDiffer before after address = (byteAt before address != byteAt after address) := by
  by_cases hinside : address < before.size
  · have hafter : address < after.size := hsize ▸ hinside
    rw [imagesDiffer, getElem?_pos before address hinside, getElem?_pos after address hafter,
      byteAt, dif_pos hinside, byteAt, dif_pos hafter]
    rfl
  · have hafter : ¬address < after.size := hsize ▸ hinside
    rw [imagesDiffer, getElem?_neg before address hinside, getElem?_neg after address hafter,
      byteAt, dif_neg hinside, byteAt, dif_neg hafter]
    rfl

theorem lt_size_of_imagesDiffer (hsize : before.size = after.size) {address : Nat}
    (hdiffers : imagesDiffer before after address = true) : address < before.size := by
  refine Decidable.byContradiction fun houtside => ?_
  rw [imagesDiffer, getElem?_neg before address houtside,
    getElem?_neg after address (hsize ▸ houtside)] at hdiffers
  cases hdiffers

theorem byteAt_eq_getD (image : ByteArray) (address : Nat) :
    byteAt image address = image.data[address]?.getD 0 := by
  rw [byteAt]
  split
  case isTrue hinside =>
    rw [Array.getElem?_eq_getElem (ByteArray.size_data ▸ hinside)]
    rfl
  case isFalse houtside => rw [Array.getElem?_eq_none (Nat.le_of_not_lt houtside), Option.getD_none]

theorem byteAt_of_extract_eq {start length address : Nat}
    (hequal : (before.extract start (start + length) ==
      after.extract start (start + length)) = true)
    (hlow : start ≤ address) (hhigh : address < start + length) :
    byteAt before address = byteAt after address := by
  have hchunk (image : ByteArray) :
      image.data[address]? = (image.extract start (start + length)).data[address - start]? := by
    rw [ByteArray.data_extract, Array.getElem?_extract, Nat.add_sub_cancel' hlow]
    split
    case isTrue => rfl
    case isFalse houtside => exact Array.getElem?_eq_none (by omega)
  have hdata : (before.extract start (start + length)).data =
      (after.extract start (start + length)).data := beq_iff_eq.mp hequal
  rw [byteAt_eq_getD, byteAt_eq_getD, hchunk before, hchunk after, hdata]

/-- Chunks that are equal agree. -/
theorem images_agree (before after : ByteArray) :
    ChunksAgree
      (fun start length =>
        before.extract start (start + length) == after.extract start (start + length))
      (fun address => byteAt before address != byteAt after address) before.size := by
  intro index start hagrees address hlow hhigh
  exact bne_eq_false_iff_eq.mpr (byteAt_of_extract_eq hagrees hlow hhigh)

theorem areRuns_diff (hsize : before.size = after.size) (hbound : before.size ≤ Memory.size) :
    AreRuns (imagesDiffer before after) (diff before after) := by
  rw [funext (imagesDiffer_eq hsize), diff]
  refine (scanned_scan (images_agree before after) hbound).areRuns fun address hdiffers => ?_
  rw [← imagesDiffer_eq hsize] at hdiffers
  exact lt_size_of_imagesDiffer hsize hdiffers

theorem eq_iff_agree : before = after ↔ ∀ address, imagesDiffer before after address = false := by
  constructor
  · rintro rfl address
    exact bne_self_eq_false _
  · intro hagree
    apply ByteArray.ext
    apply Array.ext_getElem?
    exact fun address => bne_eq_false_iff_eq.mp (hagree address)

/-! ## Patching -/

variable {image source : ByteArray} {region : Region} {regions : List Region}

theorem size_copySlice (hsize : image.size = source.size)
    (hinside : region.finish ≤ image.size) :
    (source.copySlice region.start image region.start region.length).size = image.size := by
  unfold finish at hinside
  rw [← ByteArray.size_data, ByteArray.copySlice, Array.size_append, Array.size_append,
    Array.size_extract, Array.size_extract, Array.size_extract, ByteArray.size_data,
    ByteArray.size_data]
  omega

theorem getElem?_copySlice (hsize : image.size = source.size)
    (hinside : region.finish ≤ image.size) (address : Nat) :
    (source.copySlice region.start image region.start region.length)[address]? =
      if region.covers address then source[address]? else image[address]? := by
  have hcovers := region.covers_iff address
  unfold finish at hinside hcovers
  rw [← ByteArray.size_data] at hinside
  rw [← ByteArray.size_data, ← ByteArray.size_data] at hsize
  have hfront : (image.data.extract 0 region.start).size = region.start := by
    rw [Array.size_extract]
    omega
  have hmiddle : (source.data.extract region.start (region.start + region.length)).size =
      region.length := by
    rw [Array.size_extract]
    omega
  change (source.copySlice region.start image region.start region.length).data[address]? =
    if region.covers address then source.data[address]? else image.data[address]?
  rw [ByteArray.copySlice, Array.getElem?_append, Array.getElem?_append, Array.size_append,
    hfront, hmiddle]
  by_cases hbefore : address < region.start
  · have hout : ¬region.covers address = true := by
      rw [hcovers]
      omega
    rw [if_pos (by omega), if_pos hbefore, if_neg hout, Array.getElem?_extract,
      if_pos (by omega), Nat.zero_add]
  · by_cases hlength : address < region.start + region.length
    · have hin : region.covers address = true := by
        rw [hcovers]
        omega
      have hback : region.start + (address - region.start) = address := by omega
      rw [if_pos hlength, if_neg hbefore, if_pos hin, Array.getElem?_extract,
        if_pos (by omega), hback]
    · have hout : ¬region.covers address = true := by
        rw [hcovers]
        omega
      rw [if_neg hlength, if_neg hout, Array.getElem?_extract]
      by_cases hend : address < image.data.size
      · rw [if_pos (by omega)]
        congr 1
        omega
      · rw [if_neg (by omega), Array.getElem?_eq_none (by omega)]

theorem getElem?_patch (hsize : image.size = source.size)
    (hinside : ∀ region ∈ regions, region.finish ≤ image.size) (address : Nat) :
    (patch image source regions)[address]? =
      if regions.any (·.covers address) then source[address]? else image[address]? := by
  induction regions generalizing image with
  | nil => rfl
  | cons region rest ih =>
      obtain ⟨hregion, hrest⟩ := List.forall_mem_cons.mp hinside
      have hkept := size_copySlice hsize hregion
      rw [patch, List.foldl_cons, ← patch, ih (hkept.trans hsize) (hkept ▸ hrest),
        getElem?_copySlice hsize hregion, List.any_cons]
      cases region.covers address with
      | true => simp
      | false => simp

/-- Patching an image where it differs brings it up to date. -/
theorem patch_diff (hsize : before.size = after.size) (hbound : before.size ≤ Memory.size) :
    patch before after (diff before after) = after := by
  have hruns := areRuns_diff hsize hbound
  have hinside : ∀ region ∈ diff before after, region.finish ≤ before.size := fun _ hmem =>
    hruns.finish_le (fun _ => lt_size_of_imagesDiffer hsize) hmem
  rw [eq_iff_agree]
  intro address
  rw [imagesDiffer, getElem?_patch hsize hinside, hruns.covers]
  cases hdiffers : imagesDiffer before after address with
  | true => simp
  | false => simpa [imagesDiffer] using hdiffers

end Region

namespace Memory

/-! ## Memories -/

/-- The bytes of a memory, lowest address first. -/
def image (memory : Memory) : ByteArray := ⟨memory.toList.toArray⟩

theorem size_image (memory : Memory) : memory.image.size = size := by
  rw [image, ByteArray.size, List.size_toArray, toList, slice, List.length_map,
    List.length_range']
  rfl

theorem getElem?_image (memory : Memory) (address : Nat) :
    memory.image[address]? = if address < size then some (memory.byte address) else none := by
  have hdata : memory.image[address]? = memory.toList[address]? :=
    List.getElem?_toArray
  rw [hdata, toList, getElem?_slice, Nat.zero_add]
  by_cases hinside : address < size
  · rw [if_pos ⟨hinside, hinside⟩, if_pos hinside]
  · rw [if_neg (not_and_of_not_left _ hinside), if_neg hinside]

/-- The difference of two memories is that of their images. -/
theorem diff_eq_diff_image (before after : Memory) :
    before.diff after = Region.diff before.image after.image := by
  have hsize : before.image.size = after.image.size := by rw [size_image, size_image]
  have hdiffers : before.differs after = Region.imagesDiffer before.image after.image := by
    funext address
    rw [Region.imagesDiffer, getElem?_image, getElem?_image]
    by_cases hinside : address < size
    · rw [if_pos hinside, if_pos hinside]
      rfl
    · rw [if_neg hinside, if_neg hinside, differs_of_size_le _ _ (Nat.le_of_not_lt hinside)]
      rfl
  have hruns := areRuns_diff before after
  rw [hdiffers] at hruns
  exact hruns.unique (Region.areRuns_diff hsize (Nat.le_of_eq before.size_image))

/-- What a session does to keep up with its memory makes the images equal. -/
theorem image_copyRegions_diff (before after : Memory) :
    (before.copyRegions after (before.diff after)).image = after.image := by
  rw [Region.eq_iff_agree]
  intro address
  rw [Region.imagesDiffer, getElem?_image, getElem?_image, byte_copyRegions_diff,
    bne_self_eq_false]

end Memory

open Region

/-- The difference of two images of one size, at most that of a memory, is the one list of
non-empty runs, increasing and apart from each other, that covers exactly the addresses where
the images differ.  It lies inside the images and is empty for equal ones only; copying the
newer bytes in at its runs gives the newer image; and a range of at least one byte, as every
watched one is, meets a run exactly if one of its bytes differs.  For memories with these images
it is their difference, and copying there brings the older memory up to date. -/
theorem difference_is_exact (before after : ByteArray) (hsize : before.size = after.size)
    (hbound : before.size ≤ Memory.size) :
    let runs := Region.diff before after
    AreRuns (imagesDiffer before after) runs ∧
      (∀ others, AreRuns (imagesDiffer before after) others → others = runs) ∧
      (∀ run ∈ runs, run.start < 65536 ∧ run.finish ≤ before.size) ∧
      (runs = [] ↔ before = after) ∧
      patch before after runs = after ∧
      (∀ start length, 0 < length →
        (runs.any (·.overlaps start length) = true ↔
          ∃ address, start ≤ address ∧ address < start + length ∧
            before[address]? ≠ after[address]?)) ∧
      ∀ older newer : Memory, older.image = before → newer.image = after →
        older.diff newer = runs ∧ (older.copyRegions newer runs).image = after := by
  intro runs
  have hruns : AreRuns (imagesDiffer before after) runs := areRuns_diff hsize hbound
  refine ⟨hruns, fun _ hothers => hothers.unique hruns, ?_, ?_, patch_diff hsize hbound, ?_, ?_⟩
  · intro run hmem
    have hfinish := hruns.finish_le (fun _ => lt_size_of_imagesDiffer hsize) hmem
    have hlength := hruns.nonempty run hmem
    refine ⟨?_, hfinish⟩
    unfold Region.finish at hfinish
    unfold Memory.size at hbound
    omega
  · rw [hruns.eq_nil_iff, eq_iff_agree]
  · intro start length hlength
    rw [hruns.any_overlaps_iff hlength]
    simp only [imagesDiffer, bne_iff_ne]
  · rintro older newer rfl rfl
    have hdiff : older.diff newer = runs := Memory.diff_eq_diff_image older newer
    rw [← hdiff]
    exact ⟨rfl, Memory.image_copyRegions_diff older newer⟩

/-- Four bytes in a row and the last one of all; the bytes between them are as they were. -/
theorem difference_is_exact_lastByte :
    let before : ByteArray := ⟨Array.replicate 70 0⟩
    let after : ByteArray :=
      ⟨Array.replicate 62 0 ++ Array.replicate 4 3 ++ Array.replicate 3 0 ++ #[1]⟩
    before.size = after.size ∧ before.size ≤ Memory.size ∧
      Region.diff before after = [⟨62, 4⟩, ⟨69, 1⟩] ∧
        patch before after [⟨62, 4⟩, ⟨69, 1⟩] = after ∧
          ¬∃ address, 66 ≤ address ∧ address < 66 + 2 ∧ before[address]? ≠ after[address]? := by
  intro before after
  have hsize : before.size = after.size := by decide +kernel
  have hbound : before.size ≤ Memory.size := by decide +kernel
  obtain ⟨-, -, -, -, hpatch, hmeets, -⟩ := difference_is_exact before after hsize hbound
  have hdiff : Region.diff before after = [⟨62, 4⟩, ⟨69, 1⟩] := by decide +kernel
  rw [hdiff] at hpatch hmeets
  have hclear := (not_congr (hmeets 66 2 (by decide))).mp (by decide)
  exact ⟨hsize, hbound, hdiff, hpatch, hclear⟩

end WordMachine
