import Mathlib.Data.Nat.Digits.Defs
import WordMachine.Proofs.LetterCase
import WordMachine.Proofs.ReadableDisassembly

/-!
# What number literals denote

A numeral is a nonempty string of digits, in either case, and denotes the sum of
its digits weighted by the powers of the base.  The main result goes through the
forms of a number token: a numeral of any length is read as the number that it
denotes, checked against the range of a word, and every other token fails as its
mark says.  So every number that is printed is read back.
-/

namespace WordMachine

namespace Text

/-! ## Numerals -/

/-- The text spells digits of a base, up to the case of letters, and the number is what they
denote with the last one counting ones. -/
def IsNumeral (base : Nat) (text : Text) (n : Nat) : Prop :=
  ∃ digits : List Nat,
    digits ≠ [] ∧ (∀ digit ∈ digits, digit < base) ∧
      upper text = upper (digits.map Nat.digitChar) ∧ n = Nat.ofDigits base digits.reverse

variable {base : Nat}

/-- Reading digits from left to right is Horner's rule. -/
theorem foldl_eq_ofDigits (base : Nat) (digits : List Nat) :
    digits.foldl (fun total digit => total * base + digit) 0 =
      Nat.ofDigits base digits.reverse := by
  rw [List.foldl_eq_foldr_reverse, Nat.ofDigits_eq_foldr]
  simp [Nat.add_comm, Nat.mul_comm]

theorem toUpper_of_digitIn {c : Char} {digit : Nat} (hle : base ≤ 16)
    (hdigit : digitIn base c = some digit) :
    digit < base ∧ c.toUpper = digit.digitChar.toUpper := by
  have hcapital : ∀ digit < 16,
      digit.digitChar.toUpper.toNat = if digit < 10 then 48 + digit else 55 + digit := by
    decide
  obtain ⟨hvalue, hbelow⟩ := Option.filter_eq_some_iff.mp hdigit
  have hlt : digit < base := by simpa using hbelow
  refine ⟨hlt, Char.toNat_inj.mp ?_⟩
  rw [toNat_toUpper, hcapital digit (by omega)]
  rw [digitValue_eq] at hvalue
  split at hvalue
  · cases hvalue
    rw [if_neg (by omega), if_pos (by omega)]
    omega
  · split at hvalue
    · cases hvalue
      rw [if_pos (by omega), if_neg (by omega)]
      omega
    · split at hvalue
      · cases hvalue
        rw [if_neg (by omega), if_neg (by omega)]
        omega
      · cases hvalue

theorem mapM_digitChar (hle : base ≤ 16) {digits : List Nat}
    (hdigits : ∀ digit ∈ digits, digit < base) :
    (digits.map Nat.digitChar).mapM (digitIn base) = some digits := by
  induction digits with
  | nil => rfl
  | cons digit digits ih =>
      have hfirst := digitIn_digitChar hle (hdigits digit (by simp))
      have hrest := ih fun other hother => hdigits other (by simp [hother])
      simp [hfirst, hrest]

theorem upper_of_mapM (hle : base ≤ 16) {text : Text} {digits : List Nat}
    (hread : text.mapM (digitIn base) = some digits) :
    (∀ digit ∈ digits, digit < base) ∧ upper text = upper (digits.map Nat.digitChar) := by
  induction text generalizing digits with
  | nil =>
      cases hread
      exact ⟨nofun, rfl⟩
  | cons c text ih =>
      cases hdigit : digitIn base c with
      | none => simp [hdigit] at hread
      | some digit =>
          cases hrest : text.mapM (digitIn base) with
          | none => simp [hdigit, hrest] at hread
          | some rest =>
              obtain rfl : digit :: rest = digits := by simpa [hdigit, hrest] using hread
              obtain ⟨hdigits, htext⟩ := ih hrest
              obtain ⟨hlt, hc⟩ := toUpper_of_digitIn hle hdigit
              refine ⟨by simpa [hlt] using hdigits, ?_⟩
              rw [List.map_cons, upper_cons, upper_cons, hc, htext]

theorem value?_eq_some_iff (hle : base ≤ 16) {text : Text} {n : Nat} :
    value? base text = some n ↔ IsNumeral base text n := by
  constructor
  · intro hvalue
    obtain ⟨digits, hspelt, rfl⟩ := Option.map_eq_some_iff.mp hvalue
    unfold digits? at hspelt
    split at hspelt
    · cases hspelt
    next hnonempty =>
      obtain ⟨hdigits, htext⟩ := upper_of_mapM hle hspelt
      refine ⟨digits, ?_, hdigits, htext, foldl_eq_ofDigits base digits⟩
      rintro rfl
      have hempty : text = [] := by simpa [upper] using htext
      rw [hempty] at hnonempty
      exact hnonempty rfl
  · rintro ⟨digits, hnonempty, hdigits, htext, rfl⟩
    rw [← value?_upper, htext, value?_upper, value?, digits?, if_neg (by simpa using hnonempty),
      mapM_digitChar hle hdigits, Option.map_some, foldl_eq_ofDigits]

theorem value?_eq_none_iff (hle : base ≤ 16) {text : Text} :
    value? base text = none ↔ ∀ n, ¬IsNumeral base text n := by
  rw [Option.eq_none_iff_forall_ne_some]
  exact forall_congr' fun n => not_congr (value?_eq_some_iff hle)

/-- What holds of all digits of a base, whatever their case, holds of each character of a
numeral. -/
theorem IsNumeral.forall_mem {p : Char → Bool} (hblind : Blind p)
    (hall : ∀ digit < base, p digit.digitChar = true) {text : Text} {n : Nat}
    (hnumeral : IsNumeral base text n) : ∀ c ∈ text, p c = true := by
  obtain ⟨digits, -, hdigits, htext, -⟩ := hnumeral
  intro c hc
  have hcapital : c.toUpper ∈ upper (digits.map Nat.digitChar) := by
    rw [← htext]
    exact List.mem_map_of_mem hc
  simp only [upper, List.map_map, List.mem_map, Function.comp_apply] at hcapital
  obtain ⟨digit, hdigit, hsame⟩ := hcapital
  rw [← hblind.eq hsame]
  exact hall digit (hdigits digit hdigit)

theorem isDigit_of_isNumeral {text : Text} {n : Nat} (hnumeral : IsNumeral 10 text n) :
    ∀ c ∈ text, c.isDigit = true :=
  hnumeral.forall_mem blind_isDigit (by decide)

theorem isNumeral_padLeft_toDigits (hbase : 1 < base) (hle : base ≤ 16) (width n : Nat) :
    IsNumeral base (padLeft '0' width (Nat.toDigits base n)) n :=
  (value?_eq_some_iff hle).mp (value?_padLeft_toDigits hbase hle width n)

theorem IsNumeral.upper {text : Text} {n : Nat} (hnumeral : IsNumeral base text n) :
    IsNumeral base (upper text) n := by
  obtain ⟨digits, hnonempty, hdigits, htext, hn⟩ := hnumeral
  exact ⟨digits, hnonempty, hdigits, by rw [upper_upper, htext], hn⟩

end Text

namespace Literal

open Text

/-! ## Number tokens -/

/-- What may stand in front of hexadecimal digits. -/
def hexadecimalMarks : List Text := [['0', 'x'], ['0', 'X'], ['$']]

/-- What may stand in front of binary digits. -/
def binaryMarks : List Text := [['0', 'b'], ['0', 'B'], ['%']]

/-- The tokens that are numbers, quoted characters apart, each with the number that it denotes. -/
inductive Denotes : Text → Int → Prop
  | hexadecimal {mark digits : Text} {n : Nat} (hmark : mark ∈ hexadecimalMarks)
      (hdigits : IsNumeral 16 digits n) : Denotes (mark ++ digits) n
  | binary {mark digits : Text} {n : Nat} (hmark : mark ∈ binaryMarks)
      (hdigits : IsNumeral 2 digits n) : Denotes (mark ++ digits) n
  | unsigned {digits : Text} {n : Nat} (hdigits : IsNumeral 10 digits n) : Denotes digits n
  | positive {digits : Text} {n : Nat} (hdigits : IsNumeral 10 digits n) :
      Denotes ('+' :: digits) n
  | negative {digits : Text} {n : Nat} (hdigits : IsNumeral 10 digits n) :
      Denotes ('-' :: digits) (-n)

/-- The number, where it fits a word read as signed or as unsigned. -/
def fitted (value : Int) : Except LiteralError Int :=
  if -32768 ≤ value ∧ value ≤ 65535 then .ok value else .error (.outOfRange (-32768) 65535)

variable {token digits : Text} {value : Int} {n : Nat} {error : LiteralError}

theorem number_of_unchecked (hvalue : unchecked token = .ok value) :
    number token = fitted value := by
  rw [number, hvalue]
  rfl

theorem number_of_error (herror : unchecked token = .error error) :
    number token = .error error := by
  rw [number, herror]
  rfl

theorem digits_of_isNumeral {base : Nat} (hbase : 1 ≤ base) (hle : base ≤ 16)
    (malformed : LiteralError) (negative : Bool) (hdigits : IsNumeral base digits n) :
    Literal.digits base malformed negative digits = held negative n :=
  digits_of_value? hbase malformed negative ((value?_eq_some_iff hle).mpr hdigits)

theorem digits_of_not_isNumeral {base : Nat} (hle : base ≤ 16) (malformed : LiteralError)
    (negative : Bool) (hdigits : ∀ n, ¬IsNumeral base digits n) :
    Literal.digits base malformed negative digits = .error malformed :=
  digits_of_value?_eq_none malformed negative ((value?_eq_none_iff hle).mpr hdigits)

theorem unchecked_hexadecimal {mark : Text} (hmark : mark ∈ hexadecimalMarks) (rest : Text) :
    unchecked (mark ++ rest) = Literal.digits 16 .malformedHex false rest := by
  simp only [hexadecimalMarks, List.mem_cons, List.not_mem_nil, or_false] at hmark
  rcases hmark with rfl | rfl | rfl
  · rfl
  · rfl
  · rfl

theorem unchecked_binary {mark : Text} (hmark : mark ∈ binaryMarks) (rest : Text) :
    unchecked (mark ++ rest) = Literal.digits 2 .malformedBinary false rest := by
  simp only [binaryMarks, List.mem_cons, List.not_mem_nil, or_false] at hmark
  rcases hmark with rfl | rfl | rfl
  · rfl
  · rfl
  · rfl

/-- A number that 64 bits cannot hold does not fit a word either. -/
theorem held_bind_fitted (negative : Bool) (n : Nat) :
    (held negative n >>= fun value => inRange value minValue maxValue) =
      fitted (signedBy negative n) := by
  by_cases hheld : n ≤ furthest negative
  · rw [held_of_le hheld]
    rfl
  · have hexceeds : furthest negative < n := Nat.lt_of_not_le hheld
    have hrefused : ¬(-32768 ≤ signedBy negative n ∧ signedBy negative n ≤ 65535) := by
      unfold furthest at hexceeds
      unfold signedBy
      cases negative with
      | false =>
          simp only [Bool.false_eq_true, if_false] at hexceeds ⊢
          omega
      | true =>
          simp only [if_true] at hexceeds ⊢
          omega
    rw [held_of_lt hexceeds, fitted, if_neg hrefused]
    rfl

theorem unchecked_of_denotes (hdenotes : Denotes token value) :
    ∃ negative n, unchecked token = held negative n ∧ value = signedBy negative n := by
  cases hdenotes with
  | hexadecimal hmark hdigits =>
      refine ⟨false, _, ?_, rfl⟩
      rw [unchecked_hexadecimal hmark, digits_of_isNumeral (by decide) (by decide) _ _ hdigits]
  | binary hmark hdigits =>
      refine ⟨false, _, ?_, rfl⟩
      rw [unchecked_binary hmark, digits_of_isNumeral (by decide) (by decide) _ _ hdigits]
  | unsigned hdigits =>
      refine ⟨false, _, ?_, rfl⟩
      rw [unchecked_of_digits (isDigit_of_isNumeral hdigits),
        digits_of_isNumeral (by decide) (by decide) _ _ hdigits]
  | positive hdigits =>
      exact ⟨false, _, digits_of_isNumeral (by decide) (by decide) _ _ hdigits, rfl⟩
  | negative hdigits =>
      exact ⟨true, _, digits_of_isNumeral (by decide) (by decide) _ _ hdigits, rfl⟩

/-- No other form is meant: the token starts with no mark and with no quote. -/
def IsUnmarked (token : Text) : Prop :=
  ∀ mark ∈ ['\''] :: hexadecimalMarks ++ binaryMarks, ¬mark <+: token

theorem unchecked_of_isUnmarked (hunmarked : IsUnmarked token)
    (hother : ∀ value, ¬Denotes token value) : unchecked token = .error .malformedDecimal := by
  have hsigned : unchecked token = signedDecimal token := by
    fun_cases unchecked token with
    | case8 => rfl
    | _ => simp [IsUnmarked, hexadecimalMarks, binaryMarks] at hunmarked
  rw [hsigned]
  fun_cases signedDecimal token with
  | case1 rest =>
      exact digits_of_not_isNumeral (by decide) _ _ fun n hdigits => hother _ (.negative hdigits)
  | case2 rest =>
      exact digits_of_not_isNumeral (by decide) _ _ fun n hdigits => hother _ (.positive hdigits)
  | case3 =>
      exact digits_of_not_isNumeral (by decide) _ _ fun n hdigits => hother _ (.unsigned hdigits)

theorem number_of_denotes (hdenotes : Denotes token value) : number token = fitted value := by
  obtain ⟨negative, n, hunchecked, rfl⟩ := unchecked_of_denotes hdenotes
  rw [number, hunchecked, held_bind_fitted]

theorem fitted_of_le (hmin : -32768 ≤ value) (hmax : value ≤ 65535) : fitted value = .ok value :=
  if_pos ⟨hmin, hmax⟩

theorem unchecked_quoted (rest : Text) :
    unchecked ('\'' :: rest) = (fun c => (c.toNat : Int)) <$> character ('\'' :: rest) := rfl

theorem number_of_character {rest : Text} {c : Char}
    (hcharacter : character ('\'' :: rest) = .ok c) :
    number ('\'' :: rest) = fitted c.toNat := by
  apply number_of_unchecked
  rw [unchecked_quoted, hcharacter]
  rfl

theorem number_of_character_error {rest : Text}
    (hcharacter : character ('\'' :: rest) = .error error) :
    number ('\'' :: rest) = .error error := by
  apply number_of_error
  rw [unchecked_quoted, hcharacter]
  rfl

end Literal

open Literal Text

/-- What a number token is read as.  A numeral in one of the forms gives the number that it
denotes, if that fits; a token that is no numeral behind its mark, or has no mark and is no
numeral, is malformed in that way; and a quoted token gives the code point of its character.  A
number that fits is read back from its decimal spelling, and from its hexadecimal and binary
spellings if it is not negative, with any number of zeros in front. -/
theorem number_tokens_denote_values :
    (∀ token value, Denotes token value → number token = fitted value) ∧
      (∀ mark ∈ hexadecimalMarks, ∀ rest, (∀ n, ¬IsNumeral 16 rest n) →
        number (mark ++ rest) = .error .malformedHex) ∧
      (∀ mark ∈ binaryMarks, ∀ rest, (∀ n, ¬IsNumeral 2 rest n) →
        number (mark ++ rest) = .error .malformedBinary) ∧
      (∀ token, IsUnmarked token → (∀ value, ¬Denotes token value) →
        number token = .error .malformedDecimal) ∧
      (∀ rest,
        (∀ c, character ('\'' :: rest) = .ok c → number ('\'' :: rest) = fitted c.toNat) ∧
          ∀ error, character ('\'' :: rest) = .error error →
            number ('\'' :: rest) = .error error) ∧
      (∀ value, -32768 ≤ value → value ≤ 65535 → number (signed value) = .ok value) ∧
      ∀ n : Nat, n ≤ 65535 → ∀ width,
        (∀ mark ∈ hexadecimalMarks,
          let digits := padLeft '0' width (Nat.toDigits 16 n)
          number (mark ++ digits) = .ok n ∧ number (mark ++ upper digits) = .ok n) ∧
        ∀ mark ∈ binaryMarks, number (mark ++ padLeft '0' width (Nat.toDigits 2 n)) = .ok n := by
  refine ⟨fun _ _ => number_of_denotes, ?_, ?_, ?_, ?_, ?_, ?_⟩
  · intro mark hmark rest hrest
    apply number_of_error
    rw [unchecked_hexadecimal hmark, digits_of_not_isNumeral (by decide) _ _ hrest]
  · intro mark hmark rest hrest
    apply number_of_error
    rw [unchecked_binary hmark, digits_of_not_isNumeral (by decide) _ _ hrest]
  · exact fun token hunmarked hother => number_of_error (unchecked_of_isUnmarked hunmarked hother)
  · exact fun rest => ⟨fun c => number_of_character, fun error => number_of_character_error⟩
  · exact fun value => number_signed
  · intro n hn width
    have hfits : fitted n = .ok n := fitted_of_le (by omega) (by omega)
    have hhexadecimal : IsNumeral 16 (padLeft '0' width (Nat.toDigits 16 n)) n :=
      isNumeral_padLeft_toDigits (by decide) (by decide) width n
    have hbinary : IsNumeral 2 (padLeft '0' width (Nat.toDigits 2 n)) n :=
      isNumeral_padLeft_toDigits (by decide) (by decide) width n
    refine ⟨fun mark hmark => ⟨?_, ?_⟩, fun mark hmark => ?_⟩
    · rw [number_of_denotes (.hexadecimal hmark hhexadecimal), hfits]
    · rw [number_of_denotes (.hexadecimal hmark hhexadecimal.upper), hfits]
    · rw [number_of_denotes (.binary hmark hbinary), hfits]

/-- Zeros in front do not count, and a number of any length is out of range and not malformed. -/
theorem number_tokens_denote_values_long :
    number "$0000000000000000ffff".toList = .ok 65535 ∧
      number "-99999999999999999999".toList = .error (.outOfRange (-32768) 65535) := by
  obtain ⟨hdenotes, -⟩ := number_tokens_denote_values
  have hzeros : IsNumeral 16 "0000000000000000ffff".toList 65535 :=
    ⟨List.replicate 16 0 ++ List.replicate 4 15, by decide, by decide, by decide, by decide⟩
  have hnines : IsNumeral 10 "99999999999999999999".toList 99999999999999999999 :=
    ⟨List.replicate 20 9, by decide, by decide, by decide, by decide⟩
  have hmark : ['$'] ∈ hexadecimalMarks := by decide
  exact ⟨hdenotes _ _ (.hexadecimal hmark hzeros), hdenotes _ _ (.negative hnines)⟩

end WordMachine
