import WordMachine.Text.Blank

/-!
# Numerals

Numbers as text: decimal with a minus sign, hexadecimal with at least four
digits, and padding to a column width.  `value` reads a string of digits in a
base of at most sixteen.
-/

namespace WordMachine
namespace Text

def decimal (n : Nat) : Text := Nat.toDigits 10 n

def signed (n : Int) : Text :=
  if n < 0 then '-' :: decimal n.natAbs else decimal n.natAbs

def hexadecimal (n : Nat) : Text := Nat.toDigits 16 n

/-- Put `fill` in front until the text has `length` characters. -/
def padLeft (fill : Char) (length : Nat) (text : Text) : Text :=
  List.replicate (length - text.length) fill ++ text

/-- Put blanks behind until the text has `length` characters. -/
def padRight (length : Nat) (text : Text) : Text :=
  text ++ List.replicate (length - text.length) ' '

/-- An address or word: `0x` and at least four hexadecimal digits. -/
def hexWord (n : Nat) : Text := '0' :: 'x' :: padLeft '0' 4 (hexadecimal n)

/-- The value of an ASCII digit or letter as a digit. -/
def digitValue (c : Char) : Option Nat :=
  if '0' ≤ c ∧ c ≤ '9' then some (c.toNat - '0'.toNat)
  else if 'a' ≤ c ∧ c ≤ 'z' then some (c.toNat - 'a'.toNat + 10)
  else if 'A' ≤ c ∧ c ≤ 'Z' then some (c.toNat - 'A'.toNat + 10)
  else none

/-- The digit's value where it is below the base. -/
def digitIn (base : Nat) (c : Char) : Option Nat :=
  (digitValue c).filter (· < base)

/-- The digits that a nonempty string spells. -/
def digits? (base : Nat) (text : Text) : Option (List Nat) :=
  if text.isEmpty then none else text.mapM (digitIn base)

/-- The number that a nonempty string of digits denotes. -/
def value? (base : Nat) (text : Text) : Option Nat :=
  (digits? base text).map (List.foldl (fun total digit => total * base + digit) 0)

/-! ## Numerals read back -/

theorem digitIn_digitChar {base n : Nat} (hbase : base ≤ 16) (hn : n < base) :
    digitIn base n.digitChar = some n := by
  have hdigits : ∀ n < 16, digitValue (Nat.digitChar n) = some n := by decide
  rw [digitIn, hdigits n (by omega)]
  simp [hn]

/-- Printed digits are the digits of the number that was printed. -/
theorem exists_mapM_toDigits {base : Nat} (hbase : 1 < base) (hle : base ≤ 16) (n : Nat) :
    ∃ digits, (Nat.toDigits base n).mapM (digitIn base) = some digits ∧
      digits.foldl (fun total digit => total * base + digit) 0 = n := by
  induction n using Nat.strongRecOn with
  | ind n ih =>
      rw [Nat.toDigits_eq_if hbase]
      split
      next hsmall => exact ⟨[n], by simp [digitIn_digitChar hle hsmall], by simp⟩
      next hlarge =>
        have hless : n / base < n := Nat.div_lt_self (by omega) hbase
        have hrest : n % base < base := Nat.mod_lt n (by omega)
        obtain ⟨digits, hdigits, htotal⟩ := ih _ hless
        refine ⟨digits ++ [n % base], ?_, ?_⟩
        · simp [List.mapM_append, hdigits, digitIn_digitChar hle hrest]
        · rw [List.foldl_append, htotal, List.foldl_cons, List.foldl_nil, Nat.div_add_mod']

theorem exists_digit_of_mem_toDigits {base n : Nat} {c : Char} (hbase : 1 < base)
    (hc : c ∈ Nat.toDigits base n) : ∃ digit < base, c = digit.digitChar := by
  induction n using Nat.strongRecOn with
  | ind n ih =>
      rw [Nat.toDigits_eq_if hbase] at hc
      split at hc
      next hsmall => exact ⟨n, hsmall, List.mem_singleton.mp hc⟩
      next hlarge =>
        rcases List.mem_append.mp hc with hfront | hlast
        · exact ih _ (Nat.div_lt_self (by omega) hbase) hfront
        · exact ⟨n % base, Nat.mod_lt n (by omega), List.mem_singleton.mp hlast⟩

theorem value?_padLeft_toDigits {base : Nat} (hbase : 1 < base) (hle : base ≤ 16)
    (length n : Nat) : value? base (padLeft '0' length (Nat.toDigits base n)) = some n := by
  have hzero : digitIn base '0' = some 0 := digitIn_digitChar (n := 0) hle (by omega)
  have hpadding : ∀ count, (List.replicate count '0').mapM (digitIn base) =
      some (List.replicate count 0) := by
    intro count
    induction count with
    | zero => rfl
    | succ count ih => simp [List.replicate_succ, hzero, ih]
  have hzeros : ∀ count, (List.replicate count 0).foldl
      (fun total digit => total * base + digit) 0 = 0 := by
    intro count
    induction count with
    | zero => rfl
    | succ count ih => simpa [List.replicate_succ] using ih
  obtain ⟨digits, hdigits, htotal⟩ := exists_mapM_toDigits hbase hle n
  have hne : padLeft '0' length (Nat.toDigits base n) ≠ [] := by
    simp [padLeft, Nat.toDigits_ne_nil]
  rw [value?, digits?, if_neg (by simpa using hne), padLeft, List.mapM_append, hpadding, hdigits]
  simp [List.foldl_append, hzeros, htotal]

end Text
end WordMachine
