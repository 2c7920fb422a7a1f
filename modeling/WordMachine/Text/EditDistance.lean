import WordMachine.Text.Blank

/-!
# Edit distance

The least number of inserted, removed and replaced characters that turns one
text into another.  `distances` holds the distances from one text to every
suffix of the other, longest suffix first, and is extended by one character of
the first text at a time.
-/

namespace WordMachine
namespace Text

/--
The distances for `c :: a` from those for `a`: replace or match `c`, remove it,
or insert the next character of the suffix.
-/
def extendDistances (c : Char) : (b : Text) → (below : List Nat) → List Nat
  | [], below => [below.headD 0 + 1]
  | d :: b, below =>
      let shorter := extendDistances c b below.tail
      let replaced := below.tail.headD 0 + if c = d then 0 else 1
      min replaced (min (below.headD 0 + 1) (shorter.headD 0 + 1)) :: shorter

/-- The distances from the first text to the suffixes of `b`. -/
def distances (b : Text) : (a : Text) → List Nat
  | [] => (List.range (b.length + 1)).reverse
  | c :: a => extendDistances c b (distances b a)

def editDistance (a b : Text) : Nat := (distances b a).headD 0

/-! ## One character at a time -/

theorem tail_distances (d : Char) (b a : Text) : (distances (d :: b) a).tail = distances b a := by
  induction a with
  | nil => simp [distances, List.range_succ]
  | cons c a ih =>
      rw [distances, extendDistances, List.tail_cons, ih]
      rfl

@[simp] theorem editDistance_nil_left (b : Text) : editDistance [] b = b.length := by
  simp [editDistance, distances, List.range_succ]

@[simp] theorem editDistance_nil_right (a : Text) : editDistance a [] = a.length := by
  induction a with
  | nil => rfl
  | cons c a ih => exact congrArg (· + 1) ih

theorem editDistance_cons_cons (c : Char) (a : Text) (d : Char) (b : Text) :
    editDistance (c :: a) (d :: b) =
      min (editDistance a b + if c = d then 0 else 1)
        (min (editDistance a (d :: b) + 1) (editDistance (c :: a) b + 1)) := by
  rw [editDistance, distances, extendDistances, tail_distances]
  rfl

end Text
end WordMachine
