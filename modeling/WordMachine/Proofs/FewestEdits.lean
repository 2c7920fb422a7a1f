import WordMachine.Text.EditDistance
import Mathlib.Order.Bounds.Basic

/-!
# The fewest edits between two texts

An edit inserts a character somewhere in a text, removes one or replaces one.
The edit distance is the least number of edits that lead from one text to the
other.  Edits can be undone, made behind each other and made in a mirror, and the
distance inherits all three: it is a metric, and it can be computed from either
end of the texts.
-/

namespace WordMachine
namespace Text

/-- One text becomes the other when a single character is inserted, removed or replaced. -/
inductive Edit : Text → Text → Prop
  | insert (c : Char) (text : Text) : Edit text (c :: text)
  | remove (c : Char) (text : Text) : Edit (c :: text) text
  | replace (c d : Char) (text : Text) : Edit (c :: text) (d :: text)
  /-- An edit behind a character that stays as it is. -/
  | behind (c : Char) {a b : Text} : Edit a b → Edit (c :: a) (c :: b)

/-- So many edits, each of what the one before it has made, lead from one text to the other. -/
inductive Edits : (count : Nat) → Text → Text → Prop
  | nothing (text : Text) : Edits 0 text text
  | after {count : Nat} {a b c : Text} : Edit a b → Edits count b c → Edits (count + 1) a c

/-- The distance by the first characters of both texts. -/
def recursiveDistance : Text → Text → Nat
  | [], b => b.length
  | c :: a, [] => (c :: a).length
  | c :: a, d :: b =>
      min (recursiveDistance a b + if c = d then 0 else 1)
        (min (recursiveDistance a (d :: b) + 1) (recursiveDistance (c :: a) b + 1))
termination_by a b => a.length + b.length

variable {a b c : Text} {count more : Nat}

theorem editDistance_eq_recursiveDistance (a b : Text) :
    editDistance a b = recursiveDistance a b := by
  fun_induction recursiveDistance a b with
  | case1 b => exact editDistance_nil_left b
  | case2 c a => exact editDistance_nil_right (c :: a)
  | case3 c a d b hreplaced hremoved hinserted =>
      rw [editDistance_cons_cons, hreplaced, hremoved, hinserted]

/-! ## Edits undone, continued and mirrored -/

namespace Edit

theorem symm (hedit : Edit a b) : Edit b a := by
  induction hedit with
  | insert c text => exact .remove c text
  | remove c text => exact .insert c text
  | replace c d text => exact .replace d c text
  | behind c _ ih => exact .behind c ih

theorem append_left (front : Text) (hedit : Edit a b) : Edit (front ++ a) (front ++ b) := by
  induction front with
  | nil => exact hedit
  | cons c front ih => exact .behind c ih

theorem append_right (hedit : Edit a b) (back : Text) : Edit (a ++ back) (b ++ back) := by
  induction hedit with
  | insert c text => exact .insert c (text ++ back)
  | remove c text => exact .remove c (text ++ back)
  | replace c d text => exact .replace c d (text ++ back)
  | behind c _ ih => exact .behind c ih

theorem reverse (hedit : Edit a b) : Edit a.reverse b.reverse := by
  induction hedit with
  | insert c text => simpa using append_left text.reverse (.insert c [])
  | remove c text => simpa using append_left text.reverse (.remove c [])
  | replace c d text => simpa using append_left text.reverse (.replace c d [])
  | behind c _ ih => simpa using ih.append_right [c]

end Edit

namespace Edits

theorem trans (hfirst : Edits count a b) (hrest : Edits more b c) : Edits (count + more) a c := by
  induction hfirst with
  | nothing => rwa [Nat.zero_add]
  | after hedit _ ih =>
      rw [Nat.add_right_comm]
      exact .after hedit (ih hrest)

theorem map {f : Text → Text} (hf : ∀ {a b}, Edit a b → Edit (f a) (f b))
    (hedits : Edits count a b) : Edits count (f a) (f b) := by
  induction hedits with
  | nothing => exact .nothing _
  | after hedit _ ih => exact .after (hf hedit) ih

theorem symm (hedits : Edits count a b) : Edits count b a := by
  induction hedits with
  | nothing => exact .nothing _
  | after hedit _ ih => exact ih.trans (.after hedit.symm (.nothing _))

/-- Of two ways to make the edits one takes the shorter. -/
theorem shorter (hedits : Edits count a b) (hothers : Edits more a b) :
    Edits (min count more) a b := by
  rw [Nat.min_def]
  split
  · exact hedits
  · exact hothers

end Edits

/-! ## No distance is left out, and none is too long -/

theorem edits_editDistance (a b : Text) : Edits (editDistance a b) a b := by
  -- the outer induction gives the edits for less of `a`, the inner one those for less of `b`
  induction a generalizing b with
  | nil =>
      rw [editDistance_nil_left]
      induction b with
      | nil => exact .nothing []
      | cons d b ihb => exact ihb.trans (.after (.insert d b) (.nothing _))
  | cons c a iha =>
      induction b with
      | nil =>
          have hrest := iha []
          rw [editDistance_nil_right] at hrest ⊢
          exact .after (.remove c a) hrest
      | cons d b ihb =>
          have hreplaced : Edits (editDistance a b + if c = d then 0 else 1) (c :: a) (d :: b) := by
            split
            next hsame =>
              subst hsame
              exact (iha b).map (.behind c)
            · exact .after (.replace c d a) ((iha b).map (.behind d))
          have hremoved : Edits (editDistance a (d :: b) + 1) (c :: a) (d :: b) :=
            .after (.remove c a) (iha (d :: b))
          have hinserted : Edits (editDistance (c :: a) b + 1) (c :: a) (d :: b) :=
            .after (.insert d (c :: a)) (ihb.map (.behind d))
          rw [editDistance_cons_cons]
          exact hreplaced.shorter (hremoved.shorter hinserted)

theorem editDistance_cons_left_le (c : Char) (a b : Text) :
    editDistance (c :: a) b ≤ editDistance a b + 1 := by
  cases b with
  | nil => simp
  | cons d b =>
      rw [editDistance_cons_cons]
      omega

theorem editDistance_cons_right_le (a : Text) (d : Char) (b : Text) :
    editDistance a (d :: b) ≤ editDistance a b + 1 := by
  cases a with
  | nil => simp
  | cons c a =>
      rw [editDistance_cons_cons]
      omega

/-- One edit brings a text nearer to any other by no more than one. -/
theorem Edit.editDistance_le (hedit : Edit a b) (target : Text) :
    editDistance a target ≤ editDistance b target + 1 := by
  -- in each case the two recursions are compared term by term along the target
  induction hedit generalizing target with
  | insert c text =>
      induction target with
      | nil => simp; omega
      | cons e target ih =>
          have hinserted := editDistance_cons_right_le text e target
          rw [editDistance_cons_cons]
          omega
  | remove c text => exact editDistance_cons_left_le c text target
  | replace c d text =>
      induction target with
      | nil => simp
      | cons e target ih =>
          rw [editDistance_cons_cons, editDistance_cons_cons]
          split <;> split <;> omega
  | @behind c a b hedit iha =>
      induction target with
      | nil => simpa using iha []
      | cons e target ih =>
          have hreplaced := iha target
          have hremoved := iha (e :: target)
          rw [editDistance_cons_cons, editDistance_cons_cons]
          omega

theorem Edits.editDistance_le (hedits : Edits count a b) : editDistance a b ≤ count := by
  induction hedits with
  | nothing text =>
      induction text with
      | nil => simp
      | cons c text ih =>
          rw [editDistance_cons_cons]
          simp
          omega
  | @after count a b c hedit _ ih =>
      have hstep := hedit.editDistance_le c
      omega

theorem isLeast_editDistance (a b : Text) : IsLeast {count | Edits count a b} (editDistance a b) :=
  ⟨edits_editDistance a b, fun _ hedits => hedits.editDistance_le⟩

example : editDistance "kitten".toList "sitting".toList = 3 := by decide

/-! ## A metric -/

theorem editDistance_comm (a b : Text) : editDistance a b = editDistance b a :=
  Nat.le_antisymm (edits_editDistance b a).symm.editDistance_le
    (edits_editDistance a b).symm.editDistance_le

theorem editDistance_eq_zero_iff : editDistance a b = 0 ↔ a = b := by
  constructor
  · intro hzero
    have hedits := edits_editDistance a b
    rw [hzero] at hedits
    cases hedits
    rfl
  · rintro rfl
    exact Nat.le_zero.mp (Edits.nothing a).editDistance_le

theorem editDistance_triangle (a b c : Text) :
    editDistance a c ≤ editDistance a b + editDistance b c :=
  ((edits_editDistance a b).trans (edits_editDistance b c)).editDistance_le

/-! ## From the other end -/

theorem editDistance_reverse (a b : Text) :
    editDistance a.reverse b.reverse = editDistance a b := by
  have hmirror : ∀ a b : Text, editDistance a.reverse b.reverse ≤ editDistance a b :=
    fun a b => ((edits_editDistance a b).map Edit.reverse).editDistance_le
  have hback := hmirror a.reverse b.reverse
  rw [List.reverse_reverse, List.reverse_reverse] at hback
  exact Nat.le_antisymm (hmirror a b) hback

/-- The last characters can be taken off just as the first ones. -/
theorem editDistance_concat_concat (a : Text) (c : Char) (b : Text) (d : Char) :
    editDistance (a ++ [c]) (b ++ [d]) =
      min (editDistance a b + if c = d then 0 else 1)
        (min (editDistance a (b ++ [d]) + 1) (editDistance (a ++ [c]) b + 1)) := by
  have hends := editDistance_cons_cons c a.reverse d b.reverse
  have hmirror : ∀ (e : Char) (text : Text), e :: text.reverse = (text ++ [e]).reverse :=
    fun e text => by simp
  rwa [hmirror, hmirror, editDistance_reverse, editDistance_reverse, editDistance_reverse,
    editDistance_reverse] at hends

end Text
end WordMachine
