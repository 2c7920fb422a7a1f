import Mathlib.Data.List.Forall2

/-!
# Computations that can fail

A sequence of steps succeeds if each of them does, and then every step has its
value.  The lemmas here take a success apart into the successes of its steps, and
put it together from them.  Two sequences whose steps come out alike come out alike.
-/

namespace WordMachine

variable {ε ε' α β : Type}

@[simp] theorem ok_bind (value : α) (rest : α → Except ε β) :
    (Except.ok value >>= rest) = rest value := rfl

@[simp] theorem map_ok (f : α → β) (value : α) :
    f <$> (Except.ok value : Except ε α) = .ok (f value) := rfl

@[simp] theorem mapError_ok (f : ε → ε') (value : α) :
    (Except.ok value : Except ε α).mapError f = .ok value := rfl

theorem exists_of_bind_eq_ok
    {first : Except ε α} {rest : α → Except ε β} {result : β}
    (hbind : first >>= rest = .ok result) :
    ∃ value, first = .ok value ∧ rest value = .ok result := by
  cases first with
  | error error => cases hbind
  | ok value => exact ⟨value, rfl, hbind⟩

theorem exists_of_map_eq_ok
    {f : α → β} {first : Except ε α} {result : β}
    (hmap : f <$> first = .ok result) :
    ∃ value, first = .ok value ∧ f value = result := by
  cases first with
  | error error => cases hmap
  | ok value =>
      cases hmap
      exact ⟨value, rfl, rfl⟩

theorem error_of_map_eq_error
    {f : α → β} {first : Except ε α} {error : ε}
    (hmap : f <$> first = .error error) : first = .error error := by
  cases first with
  | error found =>
      cases hmap
      rfl
  | ok value => cases hmap

theorem ok_of_mapError_eq_ok
    {f : ε → ε'} {first : Except ε α} {result : α}
    (hmap : first.mapError f = .ok result) : first = .ok result := by
  cases first with
  | error error => cases hmap
  | ok value =>
      cases hmap
      rfl

theorem forall₂_of_mapM_eq_ok
    {read : α → Except ε β} {items : List α} {results : List β}
    (hmap : items.mapM read = .ok results) :
    List.Forall₂ (fun item result => read item = .ok result) items results := by
  induction items generalizing results with
  | nil =>
      cases hmap
      exact .nil
  | cons item items ih =>
      rw [List.mapM_cons] at hmap
      obtain ⟨result, hread, hrest⟩ := exists_of_bind_eq_ok hmap
      obtain ⟨later, hlater, hresults⟩ := exists_of_bind_eq_ok hrest
      cases hresults
      exact .cons hread (ih hlater)

theorem mapM_eq_ok_of_forall₂
    {read : α → Except ε β} {items : List α} {results : List β}
    (hall : List.Forall₂ (fun item result => read item = .ok result) items results) :
    items.mapM read = .ok results := by
  induction hall with
  | nil => rfl
  | cons hread _ ih =>
      rw [List.mapM_cons, hread, ih]
      rfl

theorem ok_of_forM_eq_ok
    {check : α → Except ε Unit} {items : List α} {item : α}
    (hall : items.forM check = .ok ()) (hitem : item ∈ items) : check item = .ok () := by
  induction items with
  | nil => cases hitem
  | cons first items ih =>
      rw [List.forM] at hall
      obtain ⟨_, hfirst, hrest⟩ := exists_of_bind_eq_ok hall
      rcases List.mem_cons.mp hitem with rfl | hlater
      · exact hfirst
      · exact ih hrest hlater

/-! ## Computations that come out alike -/

/-- Both succeed, with related results, or both fail, with related errors. -/
inductive Alike {ε ε' α β : Type} (E : ε → ε' → Prop) (R : α → β → Prop) :
    Except ε α → Except ε' β → Prop
  | ok {value : α} {value' : β} : R value value' → Alike E R (.ok value) (.ok value')
  | error {error : ε} {error' : ε'} : E error error' → Alike E R (.error error) (.error error')

namespace Alike

variable {γ δ : Type} {E : ε → ε' → Prop} {R : α → β → Prop} {S : γ → δ → Prop}

theorem exists_of_ok {value : α} {result : Except ε' β} (h : Alike E R (.ok value) result) :
    ∃ value', result = .ok value' ∧ R value value' := by
  cases h with
  | ok hvalue => exact ⟨_, rfl, hvalue⟩

theorem exists_of_error {error : ε} {result : Except ε' β} (h : Alike E R (.error error) result) :
    ∃ error', result = .error error' ∧ E error error' := by
  cases h with
  | error herror => exact ⟨_, rfl, herror⟩

theorem bind {first : Except ε α} {first' : Except ε' β} {rest : α → Except ε γ}
    {rest' : β → Except ε' δ} (hfirst : Alike E R first first')
    (hrest : ∀ value value', R value value' → Alike E S (rest value) (rest' value')) :
    Alike E S (first >>= rest) (first' >>= rest') := by
  cases hfirst with
  | ok hvalue => exact hrest _ _ hvalue
  | error herror => exact .error herror

theorem map {f : α → γ} {f' : β → δ} {first : Except ε α} {first' : Except ε' β}
    (hfirst : Alike E R first first')
    (hf : ∀ value value', R value value' → S (f value) (f' value')) :
    Alike E S (f <$> first) (f' <$> first') := by
  cases hfirst with
  | ok hvalue => exact .ok (hf _ _ hvalue)
  | error herror => exact .error herror

theorem imp {S : α → β → Prop} {first : Except ε α} {first' : Except ε' β}
    (hfirst : Alike E R first first') (himp : ∀ value value', R value value' → S value value') :
    Alike E S first first' := by
  cases hfirst with
  | ok hvalue => exact .ok (himp _ _ hvalue)
  | error herror => exact .error herror

theorem mapM {items : List α} {items' : List β} {f : α → Except ε γ} {f' : β → Except ε' δ}
    (hitems : List.Forall₂ R items items')
    (hf : ∀ item item', R item item' → Alike E S (f item) (f' item')) :
    Alike E (List.Forall₂ S) (items.mapM f) (items'.mapM f') := by
  induction hitems with
  | nil => exact .ok .nil
  | cons hitem _ ih =>
      rw [List.mapM_cons, List.mapM_cons]
      refine (hf _ _ hitem).bind fun value value' hvalue => ih.bind fun values values' hvalues => ?_
      exact .ok (.cons hvalue hvalues)

theorem forM {items : List α} {items' : List β} {f : α → Except ε Unit} {f' : β → Except ε' Unit}
    (hitems : List.Forall₂ R items items')
    (hf : ∀ item item', R item item' → Alike E Eq (f item) (f' item')) :
    Alike E Eq (items.forM f) (items'.forM f') := by
  induction hitems with
  | nil => exact .ok rfl
  | cons hitem _ ih =>
      rw [List.forM, List.forM]
      exact (hf _ _ hitem).bind fun _ _ _ => ih

theorem foldlM {items : List α} {items' : List β} {step : γ → α → Except ε γ}
    {step' : δ → β → Except ε' δ} (hitems : List.Forall₂ R items items')
    (hstep : ∀ state state' item item', S state state' → R item item' →
      Alike E S (step state item) (step' state' item'))
    {state : γ} {state' : δ} (hstate : S state state') :
    Alike E S (items.foldlM step state) (items'.foldlM step' state') := by
  induction hitems generalizing state state' with
  | nil => exact .ok hstate
  | cons hitem _ ih =>
      rw [List.foldlM_cons, List.foldlM_cons]
      exact (hstep _ _ _ _ hstate hitem).bind fun _ _ hnext => ih hnext

end Alike

end WordMachine
