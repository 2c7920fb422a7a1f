import WordMachine.Debug.Breakpoint

/-!
# Breakpoints as a sorted map

Insertion halves the list as if the addresses were increasing, and that finds the
place because every change keeps them increasing.  Each change decides what is found at
one address and leaves the others alone.  So after any history the breakpoint at
an address is the one inserted last, unless it has been removed since.
-/

namespace WordMachine

namespace Breakpoints

variable {breakpoints : Breakpoints} {breakpoint other : Breakpoint} {place : Word}

/-! ## Addresses increase -/

/-- The addresses increase strictly, so no two breakpoints share one. -/
def Increasing (list : List Breakpoint) : Prop :=
  list.Pairwise fun first second => first.address < second.address

theorem increasing_erase (h : Increasing breakpoints.toList) (place : Word) :
    Increasing (breakpoints.erase place).toList :=
  List.Pairwise.filter _ h

theorem address_ne_of_mem_erase (hmem : other ∈ (breakpoints.erase place).toList) :
    other.address ≠ place := by
  rw [erase, List.mem_filter] at hmem
  exact bne_iff_ne.mp hmem.2

/-! ## The place of a new breakpoint -/

/-- The first so many addresses of the list are below the place, and the others are not. -/
structure PartsAt (list : List Breakpoint) (place : Word) (ends : Nat) : Prop where
  below : ∀ index breakpoint, list[index]? = some breakpoint → index < ends →
    breakpoint.address < place
  beyond : ∀ index breakpoint, list[index]? = some breakpoint → ends ≤ index →
    place ≤ breakpoint.address

theorem exists_partsAt {list : List Breakpoint} (h : Increasing list) (place : Word) :
    ∃ ends ≤ list.length, PartsAt list place ends := by
  induction list with
  | nil => exact ⟨0, Nat.le_refl 0, nofun, nofun⟩
  | cons first rest ih =>
      obtain ⟨hfirst, hrest⟩ := List.pairwise_cons.mp h
      by_cases hlt : first.address < place
      · obtain ⟨ends, hlength, hparts⟩ := ih hrest
        refine ⟨ends + 1, Nat.succ_le_succ hlength, ?_, ?_⟩
        · rintro (_ | index) breakpoint hget hindex
          · cases hget
            exact hlt
          · exact hparts.below index breakpoint hget (Nat.lt_of_succ_lt_succ hindex)
        · rintro (_ | index) breakpoint hget hindex
          · omega
          · exact hparts.beyond index breakpoint hget (Nat.le_of_succ_le_succ hindex)
      · have hle : place ≤ first.address := BitVec.not_lt.mp hlt
        refine ⟨0, Nat.zero_le _, fun _ _ _ hindex => absurd hindex (Nat.not_lt_zero _), ?_⟩
        intro index breakpoint hget _
        rcases List.mem_cons.mp (List.mem_of_getElem? hget) with rfl | hlater
        · exact hle
        · have hbehind := hfirst breakpoint hlater
          bv_omega

/-- Halving does not lose the place, and comes down to it. -/
theorem PartsAt.partitionFrom_eq {list : List Breakpoint} {ends low count : Nat}
    (hparts : PartsAt list place ends) (hlow : low ≤ ends) (hends : ends ≤ low + count)
    (hlength : low + count ≤ list.length) : partitionFrom list place low count = ends := by
  fun_induction partitionFrom list place low count with
  | case1 low => omega
  | case2 low count hcount hnone =>
      have houtside := List.getElem?_eq_none_iff.mp hnone
      omega
  | case3 low count hcount middle hmiddle hbelow ih =>
      have hpast : ¬ends ≤ low + count / 2 := fun hle =>
        BitVec.not_lt.mpr (hparts.beyond _ middle hmiddle hle) hbelow
      exact ih (by omega) (by omega) (by omega)
  | case4 low count hcount middle hmiddle hbeyond ih =>
      have hfront : ¬low + count / 2 < ends := fun hlt =>
        hbeyond (hparts.below _ middle hmiddle hlt)
      exact ih hlow (by omega) (by omega)

/-- In a sorted list the place is where the smaller addresses end. -/
theorem partsAt_placeFor (h : Increasing breakpoints.toList) (place : Word) :
    PartsAt breakpoints.toList place (breakpoints.placeFor place) := by
  obtain ⟨ends, hlength, hparts⟩ := exists_partsAt h place
  have hends : ends ≤ 0 + breakpoints.toList.length := by omega
  rwa [placeFor, hparts.partitionFrom_eq (Nat.zero_le ends) hends (by omega)]

theorem toList_insert (breakpoints : Breakpoints) (breakpoint : Breakpoint) :
    (breakpoints.insert breakpoint).toList =
      let others := breakpoints.erase breakpoint.address
      let place := others.placeFor breakpoint.address
      others.toList.take place ++ breakpoint :: others.toList.drop place := rfl

theorem increasing_insert (h : Increasing breakpoints.toList) (breakpoint : Breakpoint) :
    Increasing (breakpoints.insert breakpoint).toList := by
  have hothers := increasing_erase h breakpoint.address
  have hparts := partsAt_placeFor hothers breakpoint.address
  have hbelow : ∀ other ∈ (breakpoints.erase breakpoint.address).toList.take
      ((breakpoints.erase breakpoint.address).placeFor breakpoint.address),
        other.address < breakpoint.address := by
    intro other hmem
    obtain ⟨index, hget⟩ := List.getElem?_of_mem hmem
    rw [List.getElem?_take, Option.ite_none_right_eq_some] at hget
    exact hparts.below index other hget.2 hget.1
  have habove : ∀ other ∈ (breakpoints.erase breakpoint.address).toList.drop
      ((breakpoints.erase breakpoint.address).placeFor breakpoint.address),
        breakpoint.address < other.address := by
    intro other hmem
    obtain ⟨index, hget⟩ := List.getElem?_of_mem hmem
    rw [List.getElem?_drop] at hget
    have hle := hparts.beyond _ other hget (Nat.le_add_right _ _)
    have hne := address_ne_of_mem_erase (List.mem_of_mem_drop hmem)
    bv_omega
  rw [toList_insert, Increasing, List.pairwise_append, List.pairwise_cons]
  refine ⟨hothers.sublist (List.take_sublist _ _),
    ⟨habove, hothers.sublist (List.drop_sublist _ _)⟩, ?_⟩
  intro first hfirst second hsecond
  rcases List.mem_cons.mp hsecond with rfl | hlater
  · exact hbelow first hfirst
  · exact BitVec.lt_trans (hbelow first hfirst) (habove second hlater)

/-- In a sorted list every breakpoint is the one that is found at its address. -/
theorem mem_toList_iff (h : Increasing breakpoints.toList) :
    breakpoint ∈ breakpoints.toList ↔ breakpoints.get? breakpoint.address = some breakpoint := by
  constructor
  · intro hmem
    obtain ⟨before, after, hsplit⟩ := List.append_of_mem hmem
    rw [hsplit, Increasing, List.pairwise_append] at h
    have hbefore : before.find? (·.address == breakpoint.address) = none := by
      rw [List.find?_eq_none]
      intro earlier hearlier heq
      have hlt := h.2.2 earlier hearlier breakpoint List.mem_cons_self
      rw [eq_of_beq heq] at hlt
      exact BitVec.lt_irrefl _ hlt
    rw [get?, hsplit, List.find?_append, hbefore, Option.none_or, List.find?_cons]
    simp
  · exact List.mem_of_find?_eq_some

/-! ## What is found at an address -/

theorem address_of_get? (h : breakpoints.get? place = some breakpoint) :
    breakpoint.address = place := by
  have hfound := List.find?_some h
  exact eq_of_beq hfound

theorem get?_erase (breakpoints : Breakpoints) (erased place : Word) :
    (breakpoints.erase erased).get? place =
      if erased = place then none else breakpoints.get? place := by
  rw [erase, get?, get?, List.find?_filter]
  by_cases heq : erased = place
  · rw [if_pos heq, List.find?_eq_none]
    intro breakpoint _
    simp [heq]
  · rw [if_neg heq]
    congr 1
    funext breakpoint
    by_cases hat : breakpoint.address = place
    · simp [hat, Ne.symm heq]
    · simp [hat]

theorem get?_insert (breakpoints : Breakpoints) (breakpoint : Breakpoint) (place : Word) :
    (breakpoints.insert breakpoint).get? place =
      if breakpoint.address = place then some breakpoint else breakpoints.get? place := by
  have herase := get?_erase breakpoints breakpoint.address place
  rw [get?] at herase
  rw [get?, toList_insert]
  dsimp only
  rw [List.find?_append]
  by_cases heq : breakpoint.address = place
  · have hfront : ((breakpoints.erase breakpoint.address).toList.take
        ((breakpoints.erase breakpoint.address).placeFor breakpoint.address)).find?
          (·.address == place) = none := by
      rw [List.find?_eq_none]
      intro other hmem hat
      have hne := address_ne_of_mem_erase (List.mem_of_mem_take hmem)
      exact hne ((eq_of_beq hat).trans heq.symm)
    rw [if_pos heq, hfront, Option.none_or, List.find?_cons]
    simp [heq]
  · have hskip : (breakpoint.address == place) = false := beq_false_of_ne heq
    rw [if_neg heq] at herase ⊢
    rw [List.find?_cons, hskip]
    dsimp only
    rw [← List.find?_append, List.take_append_drop, herase]

/-- A list is shorter without the breakpoints at a place if one is found there. -/
theorem remove_eq_true_iff (breakpoints : Breakpoints) (place : Word) :
    (breakpoints.remove place).1 = true ↔
      ∃ breakpoint, breakpoints.get? place = some breakpoint := by
  have hshorter : (breakpoints.remove place).1 = true ↔
      (breakpoints.toList.filter (·.address != place)).length < breakpoints.toList.length := by
    have hle := List.length_filter_le (·.address != place) breakpoints.toList
    rw [remove, bne_iff_ne, erase]
    dsimp only
    omega
  rw [hshorter, List.length_filter_lt_length_iff_exists, ← Option.isSome_iff_exists, get?,
    List.find?_isSome]
  simp

/-- A breakpoint is active where it is found and enabled. -/
theorem isActive_iff (h : Increasing breakpoints.toList) :
    breakpoints.isActive place = true ↔
      ∃ breakpoint, breakpoints.get? place = some breakpoint ∧ breakpoint.enabled = true := by
  rw [isActive, List.any_eq_true]
  constructor
  · rintro ⟨breakpoint, hmem, hactive⟩
    obtain ⟨hat, henabled⟩ := Bool.and_eq_true_iff.mp hactive
    have hfound := (mem_toList_iff h).mp hmem
    rw [eq_of_beq hat] at hfound
    exact ⟨breakpoint, hfound, henabled⟩
  · rintro ⟨breakpoint, hfound, henabled⟩
    have hat := address_of_get? hfound
    exact ⟨breakpoint, List.mem_of_find?_eq_some hfound, by simp [hat, henabled]⟩

/-! ## Histories -/

/-- A change of a set of breakpoints. -/
inductive Change
  | insert (breakpoint : Breakpoint)
  | remove (address : Word)

namespace Change

/-- The only address at which the change matters. -/
def address : Change → Word
  | insert breakpoint => breakpoint.address
  | remove address => address

/-- What is found at that address afterwards. -/
def result? : Change → Option Breakpoint
  | insert breakpoint => some breakpoint
  | remove _ => none

theorem eq_insert_of_result? {change : Change} (h : change.result? = some breakpoint) :
    change = insert breakpoint := by
  cases change with
  | insert inserted =>
      cases h
      rfl
  | remove => cases h

/-- The breakpoint was inserted, and nothing was done at its address since. -/
def LastInserted (changes : List Change) (breakpoint : Breakpoint) : Prop :=
  ∃ earlier later, changes = earlier ++ insert breakpoint :: later ∧
    ∀ change ∈ later, change.address ≠ breakpoint.address

end Change

def change (breakpoints : Breakpoints) : Change → Breakpoints
  | .insert breakpoint => breakpoints.insert breakpoint
  | .remove address => (breakpoints.remove address).2

def changeAll (breakpoints : Breakpoints) (changes : List Change) : Breakpoints :=
  changes.foldl change breakpoints

variable {changes : List Change}

theorem changeAll_append (breakpoints : Breakpoints) (changes later : List Change) :
    breakpoints.changeAll (changes ++ later) = (breakpoints.changeAll changes).changeAll later :=
  List.foldl_append

theorem increasing_change (h : Increasing breakpoints.toList) (change : Change) :
    Increasing (breakpoints.change change).toList := by
  cases change with
  | insert breakpoint => exact increasing_insert h breakpoint
  | remove address => exact increasing_erase h address

theorem increasing_changeAll (h : Increasing breakpoints.toList) (changes : List Change) :
    Increasing (breakpoints.changeAll changes).toList := by
  induction changes generalizing breakpoints with
  | nil => exact h
  | cons change rest ih => exact ih (increasing_change h change)

theorem get?_change (breakpoints : Breakpoints) (change : Change) (place : Word) :
    (breakpoints.change change).get? place =
      if change.address = place then change.result? else breakpoints.get? place := by
  cases change with
  | insert breakpoint => exact get?_insert breakpoints breakpoint place
  | remove removed => exact get?_erase breakpoints removed place

theorem get?_changeAll_of_ne (h : ∀ change ∈ changes, change.address ≠ place) :
    (breakpoints.changeAll changes).get? place = breakpoints.get? place := by
  induction changes generalizing breakpoints with
  | nil => rfl
  | cons change rest ih =>
      obtain ⟨hchange, hrest⟩ := List.forall_mem_cons.mp h
      rw [changeAll, List.foldl_cons, ← changeAll, ih hrest, get?_change, if_neg hchange]

theorem get?_changeAll_of_lastInserted (h : Change.LastInserted changes breakpoint) :
    (breakpoints.changeAll changes).get? breakpoint.address = some breakpoint := by
  obtain ⟨earlier, later, rfl, hlater⟩ := h
  rw [changeAll_append, changeAll, List.foldl_cons, ← changeAll, get?_changeAll_of_ne hlater,
    change, get?_insert, if_pos rfl]

/-- What is found has been there before and was left alone, or the changes have inserted it. -/
theorem lastInserted_of_get?_changeAll
    (h : (breakpoints.changeAll changes).get? place = some breakpoint) :
    (breakpoints.get? place = some breakpoint ∧ ∀ change ∈ changes, change.address ≠ place) ∨
      Change.LastInserted changes breakpoint := by
  induction changes generalizing breakpoints with
  | nil => exact .inl ⟨h, nofun⟩
  | cons change rest ih =>
      rcases ih h with ⟨hfound, hrest⟩ | ⟨earlier, later, hsplit, hlater⟩
      · rw [get?_change] at hfound
        by_cases hat : change.address = place
        · rw [if_pos hat] at hfound
          obtain rfl := Change.eq_insert_of_result? hfound
          subst hat
          exact .inr ⟨[], rest, rfl, hrest⟩
        · rw [if_neg hat] at hfound
          exact .inl ⟨hfound, List.forall_mem_cons.mpr ⟨hat, hrest⟩⟩
      · exact .inr ⟨change :: earlier, later, by rw [hsplit, List.cons_append], hlater⟩

theorem get?_changeAll_iff :
    (changeAll {} changes).get? place = some breakpoint ↔
      breakpoint.address = place ∧ Change.LastInserted changes breakpoint := by
  constructor
  · intro hfound
    refine ⟨address_of_get? hfound, ?_⟩
    rcases lastInserted_of_get?_changeAll hfound with ⟨hbefore, -⟩ | hlast
    · cases hbefore
    · exact hlast
  · rintro ⟨rfl, hlast⟩
    exact get?_changeAll_of_lastInserted hlast

theorem ofList_eq_changeAll (list : List Breakpoint) :
    ofList list = changeAll {} (list.map .insert) := by
  rw [ofList, changeAll, List.foldl_map]
  rfl

end Breakpoints

open Breakpoints

/-- A set of breakpoints made from any list and changed in any way is a sorted finite map: it
lists what is found at each address by increasing address, and finds what was inserted there
last and not removed since.  Removal tells whether something was found and takes away no more,
and a set made from a list is that of its elements inserted in order. -/
theorem breakpoints_are_a_sorted_map (list : List Breakpoint) (changes : List Change) :
    let history := list.map Change.insert ++ changes
    let breakpoints := (ofList list).changeAll changes
    breakpoints = changeAll {} history ∧
      Increasing breakpoints.toList ∧
      (∀ breakpoint, breakpoint ∈ breakpoints.toList ↔
        breakpoints.get? breakpoint.address = some breakpoint) ∧
      (∀ place breakpoint, breakpoints.get? place = some breakpoint ↔
        breakpoint.address = place ∧ Change.LastInserted history breakpoint) ∧
      (∀ place, breakpoints.isActive place = true ↔
        ∃ breakpoint, breakpoints.get? place = some breakpoint ∧ breakpoint.enabled = true) ∧
      ∀ place,
        ((breakpoints.remove place).1 = true ↔
          ∃ breakpoint, breakpoints.get? place = some breakpoint) ∧
        (breakpoints.remove place).2.get? place = none ∧
        ∀ other, other ≠ place →
          (breakpoints.remove place).2.get? other = breakpoints.get? other := by
  intro history breakpoints
  have hhistory : breakpoints = changeAll {} history := by
    rw [changeAll_append, ← ofList_eq_changeAll]
  have hincreasing : Increasing breakpoints.toList := by
    rw [hhistory]
    exact increasing_changeAll List.Pairwise.nil history
  refine ⟨hhistory, hincreasing, fun _ => mem_toList_iff hincreasing, ?_,
    fun _ => isActive_iff hincreasing, ?_⟩
  · intro place breakpoint
    rw [hhistory]
    exact get?_changeAll_iff
  · intro place
    refine ⟨remove_eq_true_iff breakpoints place, ?_, ?_⟩
    · exact (get?_erase breakpoints place place).trans (if_pos rfl)
    · intro other hne
      exact (get?_erase breakpoints place other).trans (if_neg hne.symm)

/-- The later of two breakpoints at an address is kept. -/
example :
    ofList [{ address := 7 }, { address := 2 }, { address := 7, enabled := false }] =
      ⟨[{ address := 2 }, { address := 7, enabled := false }]⟩ := by
  decide +kernel

end WordMachine
