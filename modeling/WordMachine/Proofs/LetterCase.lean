import WordMachine.Isa.Directive
import WordMachine.Isa.Opcode
import WordMachine.Isa.Register
import WordMachine.Literal

/-!
# What does not see letter case

A text in capitals has the same blanks, the same width, the same words and numbers
at the same places, and names the same registers, opcodes and directives.  So
whatever reads a text through these reads texts that differ only in the case of
ASCII letters in the same way.
-/

namespace WordMachine
namespace Text

open Quoting

variable {a b : Text} {c d : Char}

/-! ## Letters -/

theorem toNat_toUpper (c : Char) :
    c.toUpper.toNat = if 97 ≤ c.toNat ∧ c.toNat ≤ 122 then c.toNat - 32 else c.toNat := by
  have hlower : ('a'.val ≤ c.val ∧ c.val ≤ 'z'.val) ↔ 97 ≤ c.toNat ∧ c.toNat ≤ 122 := by
    simp [UInt32.le_iff_toNat_le]
  unfold Char.toUpper
  by_cases hletter : 97 ≤ c.toNat ∧ c.toNat ≤ 122
  · rw [dif_pos (hlower.mpr hletter), if_pos hletter]
    change (c.val + ('A'.val - 'a'.val)).toNat = c.val.toNat - 32
    have hc : c.val.toNat = c.toNat := rfl
    have hshift : ('A'.val - 'a'.val).toNat = 4294967264 := by decide
    rw [UInt32.toNat_add]
    omega
  · rw [dif_neg fun hc => hletter (hlower.mp hc), if_neg hletter]

/-- Only letters have a case. -/
theorem toUpper_of_isAlpha_eq_false (hc : c.isAlpha = false) : c.toUpper = c := by
  rw [← Bool.not_eq_true, isAlpha_iff] at hc
  apply Char.toNat_inj.mp
  rw [toNat_toUpper, if_neg (by omega)]

theorem isAlpha_toUpper (c : Char) : c.toUpper.isAlpha = c.isAlpha := by
  rw [Bool.eq_iff_iff, isAlpha_iff, isAlpha_iff, toNat_toUpper]
  split
  · omega
  · exact Iff.rfl

theorem toUpper_toUpper (c : Char) : c.toUpper.toUpper = c.toUpper := by
  apply Char.toNat_inj.mp
  rw [toNat_toUpper, toNat_toUpper]
  split
  · rw [if_neg (by omega)]
  · rfl

theorem eq_of_toUpper_eq (hsame : c.toUpper = d.toUpper) (hc : c.isAlpha = false) : c = d := by
  have hd : d.isAlpha = false := by
    rw [← isAlpha_toUpper, ← hsame, isAlpha_toUpper, hc]
  rw [← toUpper_of_isAlpha_eq_false hc, hsame, toUpper_of_isAlpha_eq_false hd]

/-- The function does not see the case of letters. -/
def Blind {β : Type} (f : Char → β) : Prop := ∀ c : Char, f c.toUpper = f c

theorem Blind.eq {β : Type} {f : Char → β} (hf : Blind f) (hsame : c.toUpper = d.toUpper) :
    f c = f d := by
  rw [← hf c, hsame, hf d]

theorem blind_of_letters {β : Type} {f : Char → β} {value : β}
    (hletters : ∀ c : Char, c.isAlpha = true → f c = value) : Blind f := by
  intro c
  by_cases hletter : c.isAlpha = true
  · have hcapital : c.toUpper.isAlpha = true := by rwa [isAlpha_toUpper]
    rw [hletters c hletter, hletters _ hcapital]
  · rw [toUpper_of_isAlpha_eq_false (Bool.eq_false_iff.mpr hletter)]

theorem Blind.not {p : Char → Bool} (hp : Blind p) : Blind (!p ·) := fun c => congrArg (!·) (hp c)

/-- A mark is the capital of itself alone. -/
theorem toUpper_eq_mark_iff {mark : Char} (hmark : mark.isAlpha = false) :
    c.toUpper = mark ↔ c = mark := by
  have hkept := toUpper_of_isAlpha_eq_false hmark
  constructor
  · intro hupper
    rw [← hkept] at hupper
    exact (eq_of_toUpper_eq hupper.symm hmark).symm
  · rintro rfl
    exact hkept

theorem eq_mark_iff (hsame : c.toUpper = d.toUpper) {mark : Char} (hmark : mark.isAlpha = false) :
    c = mark ↔ d = mark := by
  rw [← toUpper_eq_mark_iff hmark, hsame, toUpper_eq_mark_iff hmark]

theorem toUpper_eq_capital_iff {small capital : Char}
    (hcapital : 65 ≤ capital.toNat ∧ capital.toNat ≤ 90)
    (hsmall : small.toNat = capital.toNat + 32) :
    c.toUpper = capital ↔ c = small ∨ c = capital := by
  rw [← Char.toNat_inj, ← Char.toNat_inj, ← Char.toNat_inj, toNat_toUpper]
  split
  · omega
  · omega

theorem toUpper_ne_small {small : Char} (hsmall : 97 ≤ small.toNat ∧ small.toNat ≤ 122) :
    c.toUpper ≠ small := by
  rw [ne_eq, ← Char.toNat_inj, toNat_toUpper]
  split
  · omega
  · omega

theorem isBlank_of_isAlpha (hletter : c.isAlpha = true) : isBlank c = false := by
  rw [isAlpha_iff] at hletter
  simp [isBlank, blankRanges]
  omega

theorem blind_isBlank : Blind isBlank := blind_of_letters fun _ => isBlank_of_isAlpha

theorem blind_isDigit : Blind Char.isDigit := by
  refine blind_of_letters fun c hletter => (?_ : c.isDigit = false)
  rw [isAlpha_iff] at hletter
  rw [← Bool.not_eq_true, isDigit_iff]
  omega

theorem blind_isAlphanum : Blind Char.isAlphanum :=
  blind_of_letters fun c hletter => (by simp [Char.isAlphanum, hletter] : c.isAlphanum = true)

theorem blind_isIdentifierStart : Blind isIdentifierStart :=
  blind_of_letters fun c hletter =>
    (by simp [isIdentifierStart, hletter] : isIdentifierStart c = true)

theorem blind_isIdentifierRest : Blind isIdentifierRest :=
  blind_of_letters fun c hletter =>
    (by simp [isIdentifierRest, Char.isAlphanum, hletter] : isIdentifierRest c = true)

theorem isAlpha_of_isQuote (hquote : isQuote c = true) : c.isAlpha = false := by
  rcases isQuote_iff.mp hquote with rfl | rfl
  · decide
  · decide

theorem blind_isQuote : Blind isQuote := by
  refine blind_of_letters fun c hletter => (?_ : isQuote c = false)
  rw [← Bool.not_eq_true]
  intro hquote
  rw [isAlpha_of_isQuote hquote] at hletter
  cases hletter

theorem blind_utf8Size : Blind Char.utf8Size := by
  refine blind_of_letters fun c hletter => (?_ : c.utf8Size = 1)
  have hc : c.val.toNat = c.toNat := rfl
  have hbound : (127 : UInt32).toNat = 127 := rfl
  rw [isAlpha_iff] at hletter
  rw [Char.utf8Size_eq_one_iff, UInt32.le_iff_toNat_le]
  omega

theorem digitValue_eq (c : Char) :
    digitValue c =
      if 48 ≤ c.toNat ∧ c.toNat ≤ 57 then some (c.toNat - 48)
      else if 97 ≤ c.toNat ∧ c.toNat ≤ 122 then some (c.toNat - 97 + 10)
      else if 65 ≤ c.toNat ∧ c.toNat ≤ 90 then some (c.toNat - 65 + 10)
      else none := by
  simp only [digitValue, Char.le_def, UInt32.le_iff_toNat_le]
  rfl

theorem blind_digitValue : Blind digitValue := by
  intro c
  simp only [digitValue_eq, toNat_toUpper]
  by_cases hlower : 97 ≤ c.toNat ∧ c.toNat ≤ 122
  · have hvalue : c.toNat - 32 - 65 + 10 = c.toNat - 97 + 10 := by omega
    simp only [if_pos hlower]
    rw [if_neg (by omega), if_neg (by omega), if_pos (by omega), if_neg (by omega), hvalue]
  · simp only [if_neg hlower]

/-! ## Words and numbers in capitals -/

@[simp] theorem upper_nil : upper [] = [] := rfl

@[simp] theorem upper_cons (c : Char) (a : Text) : upper (c :: a) = c.toUpper :: upper a := rfl

@[simp] theorem length_upper (a : Text) : (upper a).length = a.length := List.length_map _

theorem upper_upper (a : Text) : upper (upper a) = upper a := by
  rw [upper, upper, List.map_map]
  exact List.map_congr_left fun c _ => toUpper_toUpper c

theorem length_eq_of_upper_eq (hupper : upper a = upper b) : a.length = b.length := by
  rw [← length_upper, hupper, length_upper]

theorem upper_takeWhile {p : Char → Bool} (hp : Blind p) (a : Text) :
    upper (a.takeWhile p) = (upper a).takeWhile p := by
  rw [upper, upper, List.takeWhile_map]
  congr 2
  funext c
  exact (hp c).symm

theorem upper_dropWhile {p : Char → Bool} (hp : Blind p) (a : Text) :
    upper (a.dropWhile p) = (upper a).dropWhile p := by
  rw [upper, upper, List.dropWhile_map]
  congr 2
  funext c
  exact (hp c).symm

theorem upper_reverse (a : Text) : upper a.reverse = (upper a).reverse := List.map_reverse

theorem upper_trimRight (a : Text) : upper (trimRight a) = trimRight (upper a) := by
  rw [trimRight, upper_reverse, upper_dropWhile blind_isBlank, upper_reverse]
  rfl

theorem width_upper (a : Text) : width (upper a) = width a := by
  induction a with
  | nil => rfl
  | cons c a ih => rw [upper_cons, width_cons, width_cons, blind_utf8Size, ih]

theorem any_upper {p : Char → Bool} (hp : Blind p) (a : Text) : (upper a).any p = a.any p := by
  rw [upper, List.any_map]
  congr 1
  funext c
  exact hp c

theorem all_upper {p : Char → Bool} (hp : Blind p) (a : Text) : (upper a).all p = a.all p := by
  rw [upper, List.all_map]
  congr 1
  funext c
  exact hp c

theorem isIdentifier_upper (a : Text) : isIdentifier (upper a) = isIdentifier a := by
  cases a with
  | nil => rfl
  | cons c a =>
      rw [upper_cons, isIdentifier, isIdentifier, blind_isIdentifierStart,
        all_upper blind_isIdentifierRest]

theorem digitIn_toUpper (base : Nat) (c : Char) : digitIn base c.toUpper = digitIn base c := by
  rw [digitIn, blind_digitValue, digitIn]

theorem digits?_upper (base : Nat) (a : Text) : digits? base (upper a) = digits? base a := by
  have hread : (upper a).mapM (digitIn base) = a.mapM (digitIn base) := by
    rw [upper, List.mapM_map]
    simp only [Function.comp_def, digitIn_toUpper]
  rw [digits?, digits?, hread]
  simp [upper]

theorem value?_upper (base : Nat) (a : Text) : value? base (upper a) = value? base a := by
  rw [value?, value?, digits?_upper]

theorem sameWord_upper (word name : Text) : sameWord word (upper name) = sameWord word name := by
  rw [sameWord, sameWord, upper_upper]

end Text

open Text

theorem Opcode.ofText?_upper (name : Text) : ofText? (upper name) = ofText? name := by
  simp only [ofText?, sameWord_upper]

theorem Directive.ofText?_upper (name : Text) : ofText? (upper name) = ofText? name := by
  simp only [ofText?, sameWord_upper]

namespace Register

theorem index?_upper (digits : Text) : index? (upper digits) = index? digits := by
  have hzero : ∀ c : Char, c.toUpper = '0' ↔ c = '0' := fun _ => toUpper_eq_mark_iff (by decide)
  have hhead : (upper digits).head? = some '0' ↔ digits.head? = some '0' := by
    cases digits with
    | nil => exact Iff.rfl
    | cons c digits => simpa using hzero c
  simp only [index?, length_upper, hhead, value?_upper]

theorem ofText?_upper (name : Text) : ofText? (upper name) = ofText? name := by
  have hgeneral : ∀ c : Char, c.toUpper = 'R' ↔ c = 'r' ∨ c = 'R' :=
    fun _ => toUpper_eq_capital_iff (by decide) (by decide)
  unfold ofText?
  rw [upper_upper]
  congr 2
  cases name with
  | nil => rfl
  | cons c digits =>
      rw [upper_cons]
      by_cases hletter : c = 'r' ∨ c = 'R'
      · rw [(hgeneral c).mpr hletter]
        rcases hletter with rfl | rfl
        · exact congrArg (general <$> ·) (index?_upper digits)
        · exact congrArg (general <$> ·) (index?_upper digits)
      · have hcapital : c.toUpper ≠ 'R' := fun hupper => hletter ((hgeneral c).mp hupper)
        have hsmall : c.toUpper ≠ 'r' := toUpper_ne_small (by decide)
        rw [not_or] at hletter
        split
        next heq => exact absurd (List.cons.inj heq).1 hsmall
        next heq => exact absurd (List.cons.inj heq).1 hcapital
        next =>
          split
          next heq => exact absurd (List.cons.inj heq).1 hletter.1
          next heq => exact absurd (List.cons.inj heq).1 hletter.2
          · rfl

end Register

end WordMachine
