import WordMachine.Proofs.FewestEdits

/-!
# Two rows of distances

The distances between the beginnings of two texts make up a table, and each row of
it follows from the row above.  Two rows are enough to come to the last one: the
row that is being filled overwrites the row before the previous one, cell by cell,
and then the two change places.  A cell that is not there answers nothing; none is
missed, and the last cell of the last row is the distance of the texts.
-/

namespace WordMachine
namespace Text

/-- The last row that is complete, and the row that is overwritten next. -/
structure DistanceRows where
  previous : List Nat
  current : List Nat

namespace DistanceRows

def write? (row : List Nat) (column value : Nat) : Option (List Nat) :=
  if column < row.length then some (row.set column value) else none

/-- Fill the cell for the character `d` in a column of the second text. -/
def fillCell? (c : Char) (previous current : List Nat) : Char × Nat → Option (List Nat)
  | (d, column) => do
      let replaced := (← previous[column]?) + if c = d then 0 else 1
      let removed := (← previous[column + 1]?) + 1
      let inserted := (← current[column]?) + 1
      write? current (column + 1) (min (min replaced removed) inserted)

/-- Fill the row for the character `c` in a line of the first text, and exchange the rows. -/
def fillRow? (b : Text) (rows : DistanceRows) : Char × Nat → Option DistanceRows
  | (c, line) => do
      let started ← write? rows.current 0 (line + 1)
      let filled ← b.zipIdx.foldlM (fillCell? c rows.previous) started
      some ⟨filled, rows.previous⟩

def initial (b : Text) : DistanceRows :=
  ⟨List.range (b.length + 1), List.replicate (b.length + 1) 0⟩

/-- The distance of two texts by way of two rows. -/
def distance? (a b : Text) : Option Nat := do
  let rows ← a.zipIdx.foldlM (fillRow? b) (initial b)
  rows.previous[b.length]?

/-! ## What a row holds -/

/-- Up to a column, the row holds the distances from `a` to the beginnings of `b`. -/
structure FilledTo (a b : Text) (column : Nat) (row : List Nat) : Prop where
  length : row.length = b.length + 1
  cell : ∀ k ≤ column, row[k]? = some (editDistance a (b.take k))

variable {a b : Text} {c d : Char} {column : Nat} {previous current : List Nat}

theorem write?_of_lt {row : List Nat} (hcolumn : column < row.length) (value : Nat) :
    write? row column value = some (row.set column value) :=
  if_pos hcolumn

theorem filledTo_zero (a : Text) (hlength : current.length = b.length + 1) :
    FilledTo a b 0 (current.set 0 a.length) where
  length := by simpa using hlength
  cell k hk := by
    obtain rfl := Nat.le_zero.mp hk
    simp [hlength]

theorem FilledTo.set (hfilled : FilledTo a b column current) (hcolumn : column < b.length) :
    FilledTo a b (column + 1)
      (current.set (column + 1) (editDistance a (b.take (column + 1)))) where
  length := by simpa using hfilled.length
  cell k hk := by
    have hlength := hfilled.length
    rcases Nat.lt_or_eq_of_le hk with hbefore | rfl
    · rw [List.getElem?_set_ne (by omega)]
      exact hfilled.cell k (by omega)
    · exact List.getElem?_set_self (by omega)

/-- A cell is filled from the three around it, of which one is in its own row. -/
theorem fillCell?_eq (hprevious : FilledTo a b b.length previous)
    (hcurrent : FilledTo (a ++ [c]) b column current) (hd : b[column]? = some d) :
    fillCell? c previous current (d, column) =
      some (current.set (column + 1) (editDistance (a ++ [c]) (b.take (column + 1)))) := by
  obtain ⟨hcolumn, -⟩ := List.getElem?_eq_some_iff.mp hd
  have hlength := hcurrent.length
  have hbegin : b.take (column + 1) = b.take column ++ [d] := by
    rw [List.take_add_one, hd]
    rfl
  rw [fillCell?, hprevious.cell column (by omega), hprevious.cell (column + 1) (by omega),
    hcurrent.cell column le_rfl, hbegin, editDistance_concat_concat, ← min_assoc]
  exact write?_of_lt (by omega) _

/-- The invariant of the inner loop carries a row to its end. -/
theorem exists_foldlM_fillCell? (hprevious : FilledTo a b b.length previous) {front back : Text}
    (hb : b = front ++ back) (hcurrent : FilledTo (a ++ [c]) b front.length current) :
    ∃ filled, (back.zipIdx front.length).foldlM (fillCell? c previous) current = some filled ∧
      FilledTo (a ++ [c]) b b.length filled := by
  induction back generalizing front current with
  | nil =>
      rw [List.append_nil] at hb
      subst hb
      exact ⟨current, rfl, hcurrent⟩
  | cons d back ih =>
      have hd : b[front.length]? = some d := by simp [hb]
      have hcolumn : front.length < b.length := by simp [hb]
      have hbehind : front.length + 1 = (front ++ [d]).length := by simp
      have hnext := hcurrent.set hcolumn
      rw [hbehind] at hnext
      obtain ⟨filled, hfill, hfilled⟩ := ih (by simp [hb]) hnext
      refine ⟨filled, ?_, hfilled⟩
      rw [List.zipIdx_cons, List.foldlM_cons, fillCell?_eq hprevious hcurrent hd]
      rwa [hbehind]

/-- Whatever is left in a row from before is overwritten. -/
theorem exists_fillRow? {rows : DistanceRows} (hprevious : FilledTo a b b.length rows.previous)
    (hlength : rows.current.length = b.length + 1) (c : Char) :
    ∃ next, fillRow? b rows (c, a.length) = some next ∧
      FilledTo (a ++ [c]) b b.length next.previous ∧ next.current.length = b.length + 1 := by
  have hstarted : FilledTo (a ++ [c]) b 0 (rows.current.set 0 (a.length + 1)) := by
    simpa using filledTo_zero (a ++ [c]) hlength
  obtain ⟨filled, hfill, hfilled⟩ :=
    exists_foldlM_fillCell? hprevious (List.nil_append b).symm hstarted
  refine ⟨⟨filled, rows.previous⟩, ?_, hfilled, hprevious.length⟩
  rw [fillRow?, write?_of_lt (by omega)]
  exact congrArg (· >>= _) hfill

theorem exists_foldlM_fillRow? {rows : DistanceRows}
    (hprevious : FilledTo a b b.length rows.previous)
    (hlength : rows.current.length = b.length + 1) (rest : Text) :
    ∃ last, (rest.zipIdx a.length).foldlM (fillRow? b) rows = some last ∧
      FilledTo (a ++ rest) b b.length last.previous := by
  induction rest generalizing a rows with
  | nil => exact ⟨rows, rfl, by rwa [List.append_nil]⟩
  | cons c rest ih =>
      obtain ⟨next, hrow, hnext, hnextLength⟩ := exists_fillRow? hprevious hlength c
      obtain ⟨last, hrows, hlast⟩ := ih hnext hnextLength
      rw [List.length_append, List.length_singleton] at hrows
      refine ⟨last, ?_, by simpa using hlast⟩
      rw [List.zipIdx_cons, List.foldlM_cons, hrow]
      exact hrows

theorem filledTo_initial (b : Text) : FilledTo [] b b.length (initial b).previous where
  length := by simp [initial]
  cell k hk := by
    rw [editDistance_nil_left, List.length_take_of_le hk]
    exact List.getElem?_range (by omega)

/-- Two rows come to the distance of the texts. -/
theorem distance?_eq (a b : Text) : distance? a b = some (editDistance a b) := by
  obtain ⟨last, hrows, hlast⟩ :=
    exists_foldlM_fillRow? (filledTo_initial b) (by simp [initial]) a
  have hcell := hlast.cell b.length le_rfl
  rw [List.nil_append, List.take_length] at hcell
  rw [distance?, ← hcell]
  exact congrArg (· >>= _) hrows

end DistanceRows

end Text
end WordMachine
