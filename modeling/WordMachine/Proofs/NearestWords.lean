import WordMachine.Proofs.DistanceRows
import WordMachine.Text.Suggestion
import Mathlib.Data.List.Infix

/-!
# The word that was meant

The distance between two texts is the least number of edits that lead from one to
the other, whichever way it is computed.  Where no candidate contains the misspelled
name or is part of it, the suggestion is the earliest of the candidates at the least
distance, provided that two edits are enough.
-/

namespace WordMachine
namespace Text

variable {name word : Text} {candidates : List Text} {distance : Text → Nat}

/-! ## The earliest of the nearest -/

/-- The word stands in the list, behind words that are farther and before none that is nearer. -/
def IsEarliestNearest (distance : Text → Nat) (candidates : List Text) (word : Text) : Prop :=
  ∃ before after, candidates = before ++ word :: after ∧
    (∀ other ∈ before, distance word < distance other) ∧
      ∀ other ∈ after, distance word ≤ distance other

theorem isEarliestNearest_cons_iff {candidate : Text} :
    IsEarliestNearest distance (candidate :: candidates) word ↔
      word = candidate ∧ (∀ other ∈ candidates, distance candidate ≤ distance other) ∨
        distance word < distance candidate ∧ IsEarliestNearest distance candidates word := by
  constructor
  · rintro ⟨before, after, hsplit, hbefore, hafter⟩
    cases before with
    | nil =>
        obtain ⟨rfl, rfl⟩ := List.cons.inj hsplit
        exact .inl ⟨rfl, hafter⟩
    | cons first before =>
        obtain ⟨rfl, rfl⟩ := List.cons.inj hsplit
        exact .inr ⟨hbefore candidate (by simp),
          before, after, rfl, fun other hother => hbefore other (by simp [hother]), hafter⟩
  · rintro (⟨rfl, hafter⟩ | ⟨hfirst, before, after, rfl, hbefore, hafter⟩)
    · exact ⟨[], candidates, rfl, by simp, hafter⟩
    · exact ⟨candidate :: before, after, rfl, by simpa using ⟨hfirst, hbefore⟩, hafter⟩

namespace IsEarliestNearest

theorem mem (hword : IsEarliestNearest distance candidates word) : word ∈ candidates := by
  obtain ⟨before, after, rfl, -, -⟩ := hword
  simp

theorem le_of_mem (hword : IsEarliestNearest distance candidates word) :
    ∀ other ∈ candidates, distance word ≤ distance other := by
  obtain ⟨before, after, rfl, hbefore, hafter⟩ := hword
  intro other hother
  rcases List.mem_append.mp hother with hearlier | hlater
  · exact (hbefore other hearlier).le
  · rcases List.mem_cons.mp hlater with rfl | hlater
    · exact le_rfl
    · exact hafter other hlater

theorem unique {other : Text} (hword : IsEarliestNearest distance candidates word)
    (hother : IsEarliestNearest distance candidates other) : word = other := by
  induction candidates with
  | nil => cases hword.mem
  | cons candidate candidates ih =>
      rcases isEarliestNearest_cons_iff.mp hword with ⟨rfl, hfirst⟩ | ⟨hnearer, hrest⟩
      · rcases isEarliestNearest_cons_iff.mp hother with ⟨rfl, -⟩ | ⟨hnearer, hrest⟩
        · rfl
        · exact absurd hnearer (hfirst other hrest.mem).not_gt
      · rcases isEarliestNearest_cons_iff.mp hother with ⟨rfl, hfirst⟩ | ⟨-, hrest'⟩
        · exact absurd hnearer (hfirst word hrest.mem).not_gt
        · exact ih hrest hrest'

end IsEarliestNearest

/-- How far a word is from a name in capitals. -/
def distanceFrom (name word : Text) : Nat := editDistance name (upper word)

theorem nearest_eq_none_iff : nearest name candidates = none ↔ candidates = [] := by
  cases candidates with
  | nil => simp [nearest]
  | cons candidate rest =>
      rw [nearest]
      split
      · simp
      · split <;> simp

/-- A tie is left to the candidate in front. -/
theorem isEarliestNearest_of_nearest {least : Nat}
    (hnearest : nearest name candidates = some (least, word)) :
    least = distanceFrom name word ∧ IsEarliestNearest (distanceFrom name) candidates word := by
  induction candidates generalizing least word with
  | nil => cases hnearest
  | cons candidate rest ih =>
      rw [nearest] at hnearest
      split at hnearest
      next hnone =>
        obtain rfl := nearest_eq_none_iff.mp hnone
        cases hnearest
        exact ⟨rfl, isEarliestNearest_cons_iff.mpr (.inl ⟨rfl, by simp⟩)⟩
      next other found hfound =>
        obtain ⟨rfl, hrest⟩ := ih hfound
        split at hnearest
        next hnearer =>
          cases hnearest
          exact ⟨rfl, isEarliestNearest_cons_iff.mpr (.inr ⟨hnearer, hrest⟩)⟩
        next hfarther =>
          cases hnearest
          have hfirst : ∀ other ∈ rest, distanceFrom name candidate ≤ distanceFrom name other :=
            fun other hother => (not_lt.mp hfarther).trans (hrest.le_of_mem other hother)
          exact ⟨rfl, isEarliestNearest_cons_iff.mpr (.inl ⟨rfl, hfirst⟩)⟩

/-! ## Names inside of names -/

theorem occursIn_iff {part text : Text} : occursIn part text = true ↔ part <:+: text := by
  induction text with
  | nil => simp [occursIn]
  | cons c rest ih => simp [occursIn, ih, List.infix_cons_iff]

theorem overlaps_iff {candidate : Text} :
    overlaps name candidate = true ↔ name <:+: upper candidate ∨ upper candidate <:+: name := by
  simp [overlaps, occursIn_iff]

/-- Names that are compared by distance alone: a short one, and one that overlaps no candidate. -/
def IsComparedByDistance (name : Text) (candidates : List Text) : Prop :=
  2 ≤ width (name.dropWhile (· == '.')) →
    ∀ candidate ∈ candidates, ¬name <:+: upper candidate ∧ ¬upper candidate <:+: name

theorem suggest_of_isComparedByDistance
    (hname : IsComparedByDistance (upper name) candidates) :
    suggest name candidates =
      (nearest (upper name) candidates).bind fun (least, word) =>
        if least ≤ maxDistance then some word else none := by
  have hnone : (if isLongEnough (upper name) then candidates.find? (overlaps (upper name))
      else none) = none := by
    split
    next hlong =>
      refine List.find?_eq_none.mpr fun candidate hcandidate => ?_
      rw [overlaps_iff, not_or]
      exact hname (of_decide_eq_true hlong) candidate hcandidate
    · rfl
  rw [suggest]
  simp only [hnone]
  cases nearest (upper name) candidates with
  | none => rfl
  | some pair => rfl

theorem suggest_eq_some_iff (hname : IsComparedByDistance (upper name) candidates) :
    suggest name candidates = some word ↔
      IsEarliestNearest (distanceFrom (upper name)) candidates word ∧
        distanceFrom (upper name) word ≤ 2 := by
  rw [suggest_of_isComparedByDistance hname]
  constructor
  · intro hsuggest
    obtain ⟨⟨least, found⟩, hnearest, hword⟩ := Option.bind_eq_some_iff.mp hsuggest
    obtain ⟨rfl, hfound⟩ := isEarliestNearest_of_nearest hnearest
    dsimp only at hword
    split at hword
    next hnear =>
      cases hword
      exact ⟨hfound, hnear⟩
    · cases hword
  · rintro ⟨hword, hnear⟩
    cases hnearest : nearest (upper name) candidates with
    | none =>
        obtain rfl := nearest_eq_none_iff.mp hnearest
        cases hword.mem
    | some pair =>
        obtain ⟨least, found⟩ := pair
        obtain ⟨rfl, hfound⟩ := isEarliestNearest_of_nearest hnearest
        rw [Option.bind_some, hfound.unique hword]
        exact if_pos hnear

theorem suggest_eq_none_iff (hname : IsComparedByDistance (upper name) candidates) :
    suggest name candidates = none ↔ ∀ word ∈ candidates, 2 < distanceFrom (upper name) word := by
  rw [suggest_of_isComparedByDistance hname]
  cases hnearest : nearest (upper name) candidates with
  | none =>
      obtain rfl := nearest_eq_none_iff.mp hnearest
      simp
  | some pair =>
      obtain ⟨least, found⟩ := pair
      obtain ⟨rfl, hfound⟩ := isEarliestNearest_of_nearest hnearest
      have hfar : maxDistance < distanceFrom (upper name) found ↔
          ∀ word ∈ candidates, 2 < distanceFrom (upper name) word :=
        ⟨fun hfar word hword => hfar.trans_le (hfound.le_of_mem word hword),
          fun hfar => hfar found hfound.mem⟩
      rw [Option.bind_some, ← hfar, ← not_le]
      simp

/-! ## The result -/

/-- The distance counts the fewest edits, and a name that only resembles the candidates is
taken for the earliest of those that the fewest edits lead to. -/
theorem distance_counts_fewest_edits :
    (∀ a b : Text, IsLeast {count | Edits count a b} (editDistance a b) ∧
      editDistance a b = recursiveDistance a b ∧
        DistanceRows.distance? a b = some (editDistance a b)) ∧
    (∀ a b : Text, editDistance a b = editDistance b a) ∧
    (∀ a b : Text, editDistance a b = 0 ↔ a = b) ∧
    (∀ a b c : Text, editDistance a c ≤ editDistance a b + editDistance b c) ∧
    ∀ name candidates, IsComparedByDistance (upper name) candidates →
      (∀ word, suggest name candidates = some word ↔
        IsEarliestNearest (distanceFrom (upper name)) candidates word ∧
          distanceFrom (upper name) word ≤ 2) ∧
      (suggest name candidates = none ↔
        ∀ word ∈ candidates, 2 < distanceFrom (upper name) word) := by
  refine ⟨fun a b => ⟨isLeast_editDistance a b, editDistance_eq_recursiveDistance a b,
    DistanceRows.distance?_eq a b⟩, editDistance_comm, fun _ _ => editDistance_eq_zero_iff,
    editDistance_triangle, ?_⟩
  intro name candidates hname
  exact ⟨fun word => suggest_eq_some_iff hname, suggest_eq_none_iff hname⟩

/-- Of two words that are one edit away, the one in front of the other is suggested. -/
theorem distance_counts_fewest_edits_tie :
    let words := ["MOV".toList, "AND".toList, "ADD".toList]
    IsComparedByDistance (upper "axd".toList) words ∧
      suggest "axd".toList words = some "AND".toList := by
  intro words
  have hname : IsComparedByDistance (upper "axd".toList) words := by
    unfold IsComparedByDistance
    decide
  obtain ⟨-, -, -, -, hsuggest⟩ := distance_counts_fewest_edits
  obtain ⟨hsome, -⟩ := hsuggest "axd".toList words hname
  exact ⟨hname, (hsome "AND".toList).mpr
    ⟨⟨["MOV".toList], ["ADD".toList], rfl, by decide, by decide⟩, by decide⟩⟩

end Text
end WordMachine
