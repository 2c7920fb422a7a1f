import WordMachine.Diagnostic.Span
import Mathlib.Data.List.DropRight

/-!
# Ranges of bytes

Positions in a text count bytes of UTF-8, so not every number is one: a position
stands between two characters, and a range of bytes can be cut out where both of
its ends do and the second is not before the first.  `slice?` cuts such a range
out and answers nothing for any other.
-/

namespace WordMachine

namespace Text

/-- Cut a text in two at a byte position, unless that is past its end or inside a character. -/
def cut? : Nat → Text → Option (Text × Text)
  | 0, text => some ([], text)
  | _ + 1, [] => none
  | position + 1, c :: rest =>
      if c.utf8Size ≤ position + 1 then
        (cut? (position + 1 - c.utf8Size) rest).map fun parts => (c :: parts.1, parts.2)
      else none

/-- The characters whose bytes make up the range from `start` to `stop`. -/
def slice? (text : Text) (start stop : Nat) : Option Text := do
  let (_, back) ← cut? start text
  if start ≤ stop then (cut? (stop - start) back).map (·.1) else none

variable {text front part back : Text} {position start stop : Nat}

theorem width_eq_zero_iff : width text = 0 ↔ text = [] := by
  cases text with
  | nil => simp
  | cons c rest =>
      have hsize := c.utf8Size_pos
      simp only [width_cons, List.cons_ne_nil, iff_false]
      omega

theorem cut?_append (front back : Text) :
    cut? (width front) (front ++ back) = some (front, back) := by
  induction front with
  | nil => cases back <;> rfl
  | cons c front ih =>
      have hsize := c.utf8Size_pos
      obtain ⟨before, hbefore⟩ : ∃ before, c.utf8Size + width front = before + 1 :=
        ⟨c.utf8Size + width front - 1, by omega⟩
      have hrest : before + 1 - c.utf8Size = width front := by omega
      rw [width_cons, hbefore, List.cons_append, cut?, if_pos (by omega), hrest, ih]
      rfl

theorem cut?_eq_some_iff :
    cut? position text = some (front, back) ↔ text = front ++ back ∧ width front = position := by
  constructor
  · intro hcut
    induction text generalizing position front with
    | nil =>
        cases position with
        | zero =>
            cases hcut
            exact ⟨rfl, rfl⟩
        | succ position => cases hcut
    | cons c rest ih =>
        cases position with
        | zero =>
            cases hcut
            exact ⟨rfl, rfl⟩
        | succ position =>
            rw [cut?] at hcut
            split at hcut
            next hfits =>
              obtain ⟨⟨before, after⟩, hrest, hparts⟩ := Option.map_eq_some_iff.mp hcut
              cases hparts
              obtain ⟨rfl, hwidth⟩ := ih hrest
              refine ⟨rfl, ?_⟩
              rw [width_cons, hwidth]
              omega
            · cases hcut
  · rintro ⟨rfl, rfl⟩
    exact cut?_append front back

theorem slice?_append (front part back : Text) :
    slice? (front ++ part ++ back) (width front) (width front + width part) = some part := by
  have hlength : width front + width part - width front = width part := by omega
  rw [slice?, List.append_assoc, cut?_append]
  simp [hlength, cut?_append]

/-- A range can be cut out exactly when its ends stand between characters. -/
theorem slice?_eq_some_iff :
    slice? text start stop = some part ↔
      ∃ front back, text = front ++ part ++ back ∧ width front = start ∧
        width front + width part = stop := by
  constructor
  · intro hslice
    obtain ⟨⟨front, rest⟩, hfront, hrest⟩ := Option.bind_eq_some_iff.mp hslice
    obtain ⟨rfl, rfl⟩ := cut?_eq_some_iff.mp hfront
    dsimp only at hrest
    split at hrest
    next hle =>
      obtain ⟨⟨part', back⟩, hpart, rfl⟩ := Option.map_eq_some_iff.mp hrest
      obtain ⟨rfl, hwidth⟩ := cut?_eq_some_iff.mp hpart
      refine ⟨front, back, by simp, rfl, ?_⟩
      dsimp only
      omega
    · cases hrest
  · rintro ⟨front, back, rfl, rfl, rfl⟩
    exact slice?_append front part back

/-- The text from a position on. -/
def from? (text : Text) (position : Nat) : Option Text := slice? text position (width text)

theorem from?_append (front back : Text) : from? (front ++ back) (width front) = some back := by
  have hslice := slice?_append front back []
  rwa [List.append_nil, ← width_append] at hslice

theorem from?_eq_some_iff :
    from? text position = some back ↔ ∃ front, text = front ++ back ∧ width front = position := by
  constructor
  · intro hfrom
    obtain ⟨front, after, htext, hfront, hwidth⟩ := slice?_eq_some_iff.mp hfrom
    refine ⟨front, ?_, hfront⟩
    have hafter : width after = 0 := by
      rw [htext, width_append, width_append] at hwidth
      omega
    rw [htext, width_eq_zero_iff.mp hafter, List.append_nil]
  · rintro ⟨front, rfl, rfl⟩
    exact from?_append front back

/-! ## Going on from a position -/

theorem from?_zero (text : Text) : from? text 0 = some text := from?_append [] text

theorem from?_skip (hfrom : from? text position = some (part ++ back)) :
    from? text (position + width part) = some back := by
  obtain ⟨front, rfl, rfl⟩ := from?_eq_some_iff.mp hfrom
  exact from?_eq_some_iff.mpr ⟨front ++ part, by simp, by simp⟩

theorem from?_next {c : Char} (hfrom : from? text position = some (c :: back)) :
    from? text (position + c.utf8Size) = some back :=
  by simpa using from?_skip (show from? text position = some ([c] ++ back) from hfrom)

theorem slice?_of_from? (hfrom : from? text position = some (part ++ back)) :
    slice? text position (position + width part) = some part := by
  obtain ⟨front, rfl, rfl⟩ := from?_eq_some_iff.mp hfrom
  exact slice?_eq_some_iff.mpr ⟨front, back, by simp, rfl, rfl⟩

theorem slice?_eq_cut? (hfrom : from? text position = some back) (length : Nat) :
    slice? text position (position + length) = (cut? length back).map (·.1) := by
  obtain ⟨front, rfl, rfl⟩ := from?_eq_some_iff.mp hfrom
  have hlength : width front + length - width front = length := by omega
  rw [slice?, cut?_append]
  simp [hlength]

theorem width_of_from? (hfrom : from? text position = some back) :
    position + width back = width text := by
  obtain ⟨front, rfl, rfl⟩ := from?_eq_some_iff.mp hfrom
  simp

/-- Something follows exactly at the positions in front of the end. -/
theorem lt_width_iff (hfrom : from? text position = some back) :
    position < width text ↔ back ≠ [] := by
  rw [← width_of_from? hfrom, ne_eq, ← width_eq_zero_iff]
  omega

/-! ## Trimmed texts -/

theorem blanks_append_trimLeft (text : Text) : text.takeWhile isBlank ++ trimLeft text = text :=
  List.takeWhile_append_dropWhile

theorem width_sub_width_trimLeft (text : Text) :
    width text - width (trimLeft text) = width (text.takeWhile isBlank) := by
  have hsum := congrArg width (blanks_append_trimLeft text)
  rw [width_append] at hsum
  omega

theorem trimRight_isPrefix (text : Text) : trimRight text <+: text :=
  List.rdropWhile_prefix isBlank text

theorem trimRight_trimRight (text : Text) : trimRight (trimRight text) = trimRight text :=
  List.rdropWhile_idempotent isBlank text

/-- Where a text ends without blanks, its parts do that reach to the end. -/
theorem trimRight_of_append (htight : trimRight (front ++ back) = front ++ back) :
    trimRight back = back := by
  refine List.rdropWhile_eq_self_iff.mpr fun hne => ?_
  have hlast := List.rdropWhile_eq_self_iff.mp htight (by simp [hne])
  rwa [List.getLast_append_of_ne_nil _ hne] at hlast

/-- The blanks behind a tight text are not part of it. -/
theorem prefix_trimRight (htight : trimRight front = front) (back : Text) :
    front <+: trimRight (front ++ back) := by
  induction back using List.reverseRecOn with
  | nil => exact ⟨[], by rw [List.append_nil, htight]⟩
  | append_singleton back c ih =>
      rw [← List.append_assoc]
      cases hc : isBlank c with
      | true => rwa [trimRight_append_blanks _ (by simpa using hc)]
      | false =>
          rw [trimRight_append_singleton hc, List.append_assoc]
          exact List.prefix_append front _

theorem head_trimRight {c : Char} (hc : isBlank c = false) (rest : Text) :
    ∃ behind, trimRight (c :: rest) = c :: behind := by
  obtain ⟨behind, htrim⟩ := prefix_trimRight (trimRight_append_singleton hc []) rest
  exact ⟨behind, htrim.symm⟩

theorem trim_of_trimRight (htight : trimRight text = text) : trim text = trimLeft text := by
  rw [← blanks_append_trimLeft text] at htight
  exact trimRight_of_append htight

theorem trimLeft_eq_nil_iff (htight : trimRight text = text) : trimLeft text = [] ↔ text = [] := by
  constructor
  · intro hblank
    rw [← htight]
    exact List.rdropWhile_eq_nil_iff.mpr (List.dropWhile_eq_nil_iff.mp hblank)
  · rintro rfl
    rfl

theorem isBlank_of_trimLeft_eq_cons {c : Char} {rest : Text} (htrim : trimLeft text = c :: rest) :
    isBlank c = false := by
  have hne : text.dropWhile isBlank ≠ [] := by
    intro hnone
    rw [trimLeft, hnone] at htrim
    cases htrim
  have hhead : (text.dropWhile isBlank).head hne = c := by
    rw [trimLeft] at htrim
    simp [htrim]
  rw [← hhead]
  exact List.head_dropWhile_not isBlank hne

theorem trim_eq_nil_iff : trim text = [] ↔ trimLeft text = [] := by
  constructor
  · intro htrim
    have hblanks := List.rdropWhile_eq_nil_iff.mp htrim
    cases hleft : trimLeft text with
    | nil => rfl
    | cons c rest =>
        have hc := hblanks c (by simp [hleft])
        rw [isBlank_of_trimLeft_eq_cons hleft] at hc
        cases hc
  · intro hleft
    rw [trim, hleft]
    rfl

/-- What is trimmed off a text is the blanks on both sides of it. -/
theorem blanks_append_trim (text : Text) :
    text.takeWhile isBlank ++ trim text ++ (trimLeft text).rtakeWhile isBlank = text := by
  have hright : trim text ++ (trimLeft text).rtakeWhile isBlank = trimLeft text :=
    List.rdropWhile_append_rtakeWhile
  rw [List.append_assoc, hright, blanks_append_trimLeft]

theorem isTight_trim (hne : trimLeft text ≠ []) : IsTight (trim text) where
  first := by
    obtain ⟨c, rest, hleft⟩ := List.exists_cons_of_ne_nil hne
    have hc := isBlank_of_trimLeft_eq_cons hleft
    obtain ⟨behind, htrim⟩ := head_trimRight hc rest
    exact ⟨c, behind, by rw [trim, hleft, htrim], hc⟩
  last := by
    have htrim : trim text ≠ [] := fun hblank => hne (trim_eq_nil_iff.mp hblank)
    have hlast := List.rdropWhile_last_not isBlank (trimLeft text) htrim
    exact ⟨(trim text).dropLast, (trim text).getLast htrim,
      (List.dropLast_concat_getLast htrim).symm, Bool.eq_false_iff.mpr hlast⟩

end Text

theorem Span.dropBytes_append (front back : Text) :
    dropBytes (Text.width front) (front ++ back) = .ok back := by
  induction front with
  | nil =>
      rw [Text.width_nil, dropBytes.eq_def]
      rfl
  | cons c front ih =>
      have hsize := c.utf8Size_pos
      obtain ⟨before, hbefore⟩ : ∃ before, c.utf8Size + Text.width front = before + 1 :=
        ⟨c.utf8Size + Text.width front - 1, by omega⟩
      have hrest : before + 1 - c.utf8Size = Text.width front := by omega
      rw [Text.width_cons, hbefore, List.cons_append, dropBytes, if_pos (by omega), hrest, ih]

end WordMachine
