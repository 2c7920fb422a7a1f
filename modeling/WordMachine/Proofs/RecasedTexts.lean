import WordMachine.Proofs.LetterCase
import Mathlib.Data.List.Forall2
import Mathlib.Data.List.Infix

/-!
# Texts recased outside quotes

Two texts are recased if they are equal up to the case of ASCII letters, and equal
wherever a character stands between two quotes.  Texts that are cut at the same
places have parts that are recased again, down to the literals, which are equal.
-/

namespace WordMachine
namespace Text

open Quoting

variable {a b a' b' : Text} {c d : Char}

/-- There is a quote before the position and one behind it. -/
def Enclosed (a : Text) (position : Nat) : Prop :=
  (a.take position).any isQuote = true ∧ (a.drop (position + 1)).any isQuote = true

instance (a : Text) : DecidablePred a.Enclosed := fun position =>
  inferInstanceAs (Decidable ((a.take position).any isQuote = true ∧ _))

theorem Enclosed.lt_length {position : Nat} (h : a.Enclosed position) : position < a.length := by
  by_contra hbound
  have hclose := h.2
  rw [List.drop_eq_nil_of_le (by omega)] at hclose
  cases hclose

theorem Enclosed.append {position : Nat} (h : a.Enclosed position) (front back : Text) :
    (front ++ a ++ back).Enclosed (front.length + position) := by
  have hbound := h.lt_length
  obtain ⟨hopen, hclose⟩ := h
  rw [List.append_assoc]
  refine ⟨?_, ?_⟩
  · rw [List.take_length_add_append, List.any_append, List.take_append_of_le_length hbound.le,
      hopen, Bool.or_true]
  · rw [Nat.add_assoc, List.drop_length_add_append, List.drop_append_of_le_length hbound,
      List.any_append, hclose, Bool.true_or]

/-- The texts differ at most in the case of letters that do not stand between two quotes. -/
structure Recased (a b : Text) : Prop where
  upper_eq : upper a = upper b
  enclosed : ∀ position, a.Enclosed position → a[position]? = b[position]?

instance (a b : Text) : Decidable (a.Recased b) :=
  decidable_of_iff
    (upper a = upper b ∧ ∀ position < a.length, a.Enclosed position → a[position]? = b[position]?)
    ⟨fun h => ⟨h.1, fun position henclosed => h.2 position henclosed.lt_length henclosed⟩,
      fun h => ⟨h.upper_eq, fun position _ => h.enclosed position⟩⟩

example :
    Recased "Push 'a', Start".toList "pUSH 'a', START".toList ∧
      ¬Recased "Push 'a', Start".toList "Push 'A', Start".toList := by
  decide

namespace Recased

theorem length_eq (h : Recased a b) : a.length = b.length := length_eq_of_upper_eq h.upper_eq

/-! ## Parts -/

theorem getElem?_middle (front back : Text) {position : Nat} (hposition : position < a.length) :
    (front ++ a ++ back)[front.length + position]? = a[position]? := by
  rw [List.append_assoc, List.getElem?_append_right (Nat.le_add_right _ _),
    Nat.add_sub_cancel_left, List.getElem?_append_left hposition]

/-- What stands at the same place is recased with the texts around it. -/
theorem of_append {front back front' back' : Text}
    (h : Recased (front ++ a ++ back) (front' ++ b ++ back'))
    (hfront : front.length = front'.length) (hlength : a.length = b.length) : Recased a b where
  upper_eq := by
    have hupper := h.upper_eq
    simp only [upper, List.map_append] at hupper
    have hmiddle := List.append_inj_left hupper (by simp [hfront, hlength])
    exact List.append_inj_right hmiddle (by simp [hfront])
  enclosed := by
    intro position henclosed
    have hbound := henclosed.lt_length
    have hsame := h.enclosed _ (henclosed.append front back)
    rw [getElem?_middle front back hbound, hfront,
      getElem?_middle front' back' (hlength ▸ hbound)] at hsame
    exact hsame

theorem of_prefix (h : Recased a b) (ha : a' <+: a) (hb : b' <+: b)
    (hlength : a'.length = b'.length) : Recased a' b' := by
  obtain ⟨back, rfl⟩ := ha
  obtain ⟨back', rfl⟩ := hb
  have hwhole : Recased ([] ++ a' ++ back) ([] ++ b' ++ back') := h
  exact of_append hwhole rfl hlength

theorem of_suffix (h : Recased a b) (ha : a' <:+ a) (hb : b' <:+ b)
    (hlength : a'.length = b'.length) : Recased a' b' := by
  have htotal := h.length_eq
  obtain ⟨front, rfl⟩ := ha
  obtain ⟨front', rfl⟩ := hb
  simp only [List.length_append] at htotal
  rw [← List.append_nil (front ++ a'), ← List.append_nil (front' ++ b')] at h
  exact of_append h (by omega) hlength

theorem of_cons (h : Recased (c :: a) (d :: b)) : c.toUpper = d.toUpper ∧ Recased a b := by
  have hupper := List.cons.inj h.upper_eq
  refine ⟨hupper.1, h.of_suffix (List.suffix_cons c a) (List.suffix_cons d b) ?_⟩
  exact length_eq_of_upper_eq hupper.2

theorem nil_or_cons (h : Recased a b) :
    (a = [] ∧ b = []) ∨
      ∃ c d a' b', a = c :: a' ∧ b = d :: b' ∧ c.toUpper = d.toUpper ∧ Recased a' b' := by
  cases a with
  | nil =>
      have hlength := h.length_eq
      exact .inl ⟨rfl, List.length_eq_zero_iff.mp hlength.symm⟩
  | cons c a' =>
      cases b with
      | nil => cases h.length_eq
      | cons d b' => exact .inr ⟨c, d, a', b', rfl, rfl, h.of_cons⟩

theorem takeWhile {p : Char → Bool} (hp : Blind p) (h : Recased a b) :
    Recased (a.takeWhile p) (b.takeWhile p) := by
  refine h.of_prefix (List.takeWhile_prefix p) (List.takeWhile_prefix p) ?_
  apply length_eq_of_upper_eq
  rw [upper_takeWhile hp, upper_takeWhile hp, h.upper_eq]

theorem dropWhile {p : Char → Bool} (hp : Blind p) (h : Recased a b) :
    Recased (a.dropWhile p) (b.dropWhile p) := by
  refine h.of_suffix (List.dropWhile_suffix p) (List.dropWhile_suffix p) ?_
  apply length_eq_of_upper_eq
  rw [upper_dropWhile hp, upper_dropWhile hp, h.upper_eq]

theorem trimLeft (h : Recased a b) : Recased (trimLeft a) (trimLeft b) :=
  h.dropWhile blind_isBlank

theorem trimRight (h : Recased a b) : Recased (trimRight a) (trimRight b) := by
  have hfront : ∀ a : Text, Text.trimRight a <+: a := by
    intro a
    rw [← List.reverse_suffix, Text.trimRight, List.reverse_reverse]
    exact List.dropWhile_suffix _
  refine h.of_prefix (hfront a) (hfront b) ?_
  apply length_eq_of_upper_eq
  rw [upper_trimRight, upper_trimRight, h.upper_eq]

theorem trim (h : Recased a b) : Recased (trim a) (trim b) := h.trimLeft.trimRight

theorem dropLast (h : Recased a b) : Recased a.dropLast b.dropLast := by
  refine h.of_prefix (List.dropLast_prefix a) (List.dropLast_prefix b) ?_
  rw [List.length_dropLast, List.length_dropLast, h.length_eq]

theorem width_eq (h : Recased a b) : width a = width b := by
  rw [← width_upper, h.upper_eq, width_upper]

theorem isEmpty_eq (h : Recased a b) : a.isEmpty = b.isEmpty := by
  rcases h.nil_or_cons with ⟨rfl, rfl⟩ | ⟨c, d, a', b', rfl, rfl, -⟩
  · rfl
  · rfl

theorem isIdentifier_eq (h : Recased a b) : isIdentifier a = isIdentifier b := by
  rw [← isIdentifier_upper, h.upper_eq, isIdentifier_upper]

theorem register_eq (h : Recased a b) : Register.ofText? a = Register.ofText? b := by
  rw [← Register.ofText?_upper, h.upper_eq, Register.ofText?_upper]

/-- Recased texts begin with the same mark, if they begin with one. -/
theorem head?_eq_mark_iff (h : Recased a b) {mark : Char} (hmark : mark.isAlpha = false) :
    a.head? = some mark ↔ b.head? = some mark := by
  rcases h.nil_or_cons with ⟨rfl, rfl⟩ | ⟨c, d, a', b', rfl, rfl, hhead, -⟩
  · exact Iff.rfl
  · simp only [List.head?_cons, Option.some_inj]
    rw [← toUpper_eq_mark_iff hmark, hhead, toUpper_eq_mark_iff hmark]

theorem getLast?_eq_mark_iff (h : Recased a b) {mark : Char} (hmark : mark.isAlpha = false) :
    a.getLast? = some mark ↔ b.getLast? = some mark := by
  have hlast : ∀ a : Text, a.getLast? = some mark ↔ (upper a).getLast? = some mark := by
    intro a
    rw [upper, List.getLast?_map]
    cases a.getLast? with
    | none => exact Iff.rfl
    | some c =>
        simp only [Option.map_some, Option.some_inj]
        exact (toUpper_eq_mark_iff hmark).symm
  rw [hlast, h.upper_eq, ← hlast]

end Recased

/-! ## Literals -/

/-- A literal that is closed stands between its quotes. -/
theorem Recased.eq_of_closed {quote : Char} {body : Text} (hquote : isQuote quote = true)
    (h : Recased (quote :: (body ++ [quote])) b) : b = quote :: (body ++ [quote]) := by
  have hlength : b.length = body.length + 2 := by simpa using h.length_eq.symm
  have hletter := isAlpha_of_isQuote hquote
  have hfirst : b[0]? = some quote := by
    rw [← List.head?_eq_getElem?]
    exact (h.head?_eq_mark_iff hletter).mp rfl
  have hlast : b[body.length + 1]? = some quote := by
    have hend := (h.getLast?_eq_mark_iff hletter).mp (List.getLast?_concat (l := quote :: body))
    rwa [List.getLast?_eq_getElem?, hlength] at hend
  have hclosing : (quote :: (body ++ [quote]))[body.length + 1]? = some quote := by simp
  apply List.ext_getElem?
  intro position
  by_cases hbefore : position = 0
  · rw [hbefore, hfirst]
    rfl
  · by_cases hbehind : position < body.length + 1
    · have henclosed : Enclosed (quote :: (body ++ [quote])) position := by
        obtain ⟨inner, rfl⟩ := Nat.exists_eq_add_one_of_ne_zero hbefore
        refine ⟨?_, ?_⟩
        · simp [hquote]
        · rw [List.drop_succ_cons, List.drop_append_of_le_length (by omega)]
          simp [hquote]
      exact (h.enclosed position henclosed).symm
    · by_cases hend : position = body.length + 1
      · rw [hend, hlast, hclosing]
      · rw [List.getElem?_eq_none (by omega), List.getElem?_eq_none (by simp; omega)]

end Text

namespace Literal

open Text

variable {a b : Text}

/-- A body that ends with its quote makes a closed literal. -/
theorem recased_body? {quote : Char} {rest rest' : Text} (hquote : Quoting.isQuote quote = true)
    (h : Recased (quote :: rest) (quote :: rest')) : body? quote rest = body? quote rest' := by
  have hends := h.of_cons.2.getLast?_eq_mark_iff (isAlpha_of_isQuote hquote)
  unfold body?
  by_cases hend : rest.getLast? = some quote
  · obtain ⟨body, rfl⟩ := List.getLast?_eq_some_iff.mp hend
    rw [(List.cons.inj (h.eq_of_closed hquote)).2]
  · rw [if_neg hend, if_neg fun hend' => hend (hends.mpr hend')]

theorem recased_bytes (h : Recased a b) : bytes a = bytes b := by
  rcases h.nil_or_cons with ⟨rfl, rfl⟩ | ⟨c, d, rest, rest', rfl, rfl, hhead, -⟩
  · rfl
  · by_cases hquote : Quoting.isQuote c = true
    · obtain rfl := eq_of_toUpper_eq hhead (isAlpha_of_isQuote hquote)
      rw [bytes, bytes, recased_body? hquote h]
    · have hquote' : ¬Quoting.isQuote d = true := by rwa [← blind_isQuote.eq hhead]
      rw [bytes, bytes, if_neg hquote, if_neg hquote']

theorem recased_character {rest rest' : Text} (h : Recased ('\'' :: rest) ('\'' :: rest')) :
    character ('\'' :: rest) = character ('\'' :: rest') := by
  have hbody := recased_body? (by decide) h
  simp only [character, hbody]

theorem digits_upper (base : Nat) (malformed : LiteralError) (negative : Bool) (token : Text) :
    digits base malformed negative (upper token) = digits base malformed negative token := by
  rw [digits, digits, digits?_upper]

theorem signedDecimal_upper (token : Text) : signedDecimal (upper token) = signedDecimal token := by
  cases token with
  | nil => rfl
  | cons c rest =>
      by_cases hminus : c = '-'
      · subst hminus
        exact digits_upper 10 .malformedDecimal true rest
      · by_cases hplus : c = '+'
        · subst hplus
          exact digits_upper 10 .malformedDecimal false rest
        · have hplain : ∀ (e : Char) (rest : Text), e ≠ '-' → e ≠ '+' →
              signedDecimal (e :: rest) = digits 10 .malformedDecimal false (e :: rest) := by
            intro e rest hminus hplus
            unfold signedDecimal
            split <;> simp_all
          have hupper := digits_upper 10 .malformedDecimal false (c :: rest)
          rw [hplain c rest hminus hplus, ← hupper]
          apply hplain
          · rwa [ne_eq, toUpper_eq_mark_iff (by decide)]
          · rwa [ne_eq, toUpper_eq_mark_iff (by decide)]

/-- Without the mark of another form a number is decimal. -/
theorem unchecked_decimalForm {token : Text}
    (hmark : token.head? ≠ some '$' ∧ token.head? ≠ some '%' ∧ token.head? ≠ some '\'')
    (hzero : ∀ c rest, token = '0' :: c :: rest → c.toUpper ≠ 'X' ∧ c.toUpper ≠ 'B') :
    unchecked token = signedDecimal token := by
  unfold unchecked
  split
  next rest => exact absurd rfl (hzero 'x' rest rfl).1
  next rest => exact absurd rfl (hzero 'X' rest rfl).1
  next rest => exact absurd rfl hmark.1
  next rest => exact absurd rfl (hzero 'b' rest rfl).2
  next rest => exact absurd rfl (hzero 'B' rest rfl).2
  next rest => exact absurd rfl hmark.2.1
  next rest => exact absurd rfl hmark.2.2
  · rfl

theorem unchecked_upper_of_base {c : Char} (hc : c.toUpper = 'X' ∨ c.toUpper = 'B') (rest : Text) :
    unchecked (upper ('0' :: c :: rest)) = unchecked ('0' :: c :: rest) := by
  have hx : c.toUpper = 'X' ↔ c = 'x' ∨ c = 'X' :=
    toUpper_eq_capital_iff (by decide) (by decide)
  have hb : c.toUpper = 'B' ↔ c = 'b' ∨ c = 'B' :=
    toUpper_eq_capital_iff (by decide) (by decide)
  rw [hx, hb] at hc
  rcases hc with (rfl | rfl) | (rfl | rfl)
  · exact digits_upper 16 .malformedHex false rest
  · exact digits_upper 16 .malformedHex false rest
  · exact digits_upper 2 .malformedBinary false rest
  · exact digits_upper 2 .malformedBinary false rest

/-- Beside characters, number tokens may be read in capitals. -/
theorem unchecked_upper {token : Text} (htoken : token.head? ≠ some '\'') :
    unchecked (upper token) = unchecked token := by
  cases token with
  | nil => rfl
  | cons c rest =>
      by_cases hdollar : c = '$'
      · subst hdollar
        exact digits_upper 16 .malformedHex false rest
      by_cases hpercent : c = '%'
      · subst hpercent
        exact digits_upper 2 .malformedBinary false rest
      by_cases hbase : ∃ e rest', c = '0' ∧ rest = e :: rest' ∧ (e.toUpper = 'X' ∨ e.toUpper = 'B')
      · obtain ⟨e, rest', rfl, rfl, he⟩ := hbase
        exact unchecked_upper_of_base he rest'
      · have hzero : ∀ e rest', c = '0' → rest = e :: rest' → e.toUpper ≠ 'X' ∧ e.toUpper ≠ 'B' :=
          fun e rest' hc hrest =>
            not_or.mp fun he => hbase ⟨e, rest', hc, hrest, he⟩
        rw [unchecked_decimalForm, unchecked_decimalForm, signedDecimal_upper]
        · simpa [hdollar, hpercent] using htoken
        · intro e rest' heq
          exact hzero e rest' (List.cons.inj heq).1 (List.cons.inj heq).2
        · simpa [toUpper_eq_mark_iff, hdollar, hpercent] using htoken
        · intro e rest' heq
          obtain ⟨hc, hrest⟩ := List.cons.inj heq
          cases rest with
          | nil => cases hrest
          | cons f rest'' =>
              rw [← (List.cons.inj hrest).1, toUpper_toUpper]
              exact hzero f rest'' ((toUpper_eq_mark_iff (by decide)).mp hc) rfl

theorem recased_number (h : Recased a b) : number a = number b := by
  have hunchecked : unchecked a = unchecked b := by
    by_cases hquote : a.head? = some '\''
    · have hquote' := (h.head?_eq_mark_iff (by decide)).mp hquote
      obtain ⟨rest, rfl⟩ := List.head?_eq_some_iff.mp hquote
      obtain ⟨rest', rfl⟩ := List.head?_eq_some_iff.mp hquote'
      exact congrArg ((fun c : Char => (c.toNat : Int)) <$> ·) (recased_character h)
    · have hquote' : b.head? ≠ some '\'' := by rwa [ne_eq, ← h.head?_eq_mark_iff (by decide)]
      rw [← unchecked_upper hquote, h.upper_eq, unchecked_upper hquote']
  rw [number, number, hunchecked]

theorem recased_isNumericStart (h : Recased a b) : isNumericStart a = isNumericStart b := by
  have hblind : Blind fun c => c.isDigit || c ∈ ['$', '%', '\'', '-', '+'] := by
    intro c
    simp [blind_isDigit c, toUpper_eq_mark_iff]
  rcases h.nil_or_cons with ⟨rfl, rfl⟩ | ⟨c, d, rest, rest', rfl, rfl, hhead, -⟩
  · rfl
  · exact hblind.eq hhead

end Literal

end WordMachine
