import WordMachine.Text.Numeral
import WordMachine.Text.Quoted
import WordMachine.Text.Utf8

/-!
# Literals

Numbers are hexadecimal (`0x1a`, `$1a`), binary (`0b101`, `%101`), a character
in single quotes, or decimal with an optional sign.  The first form whose mark
is present decides.  Digits are read into 64 bits; a number lies in
`[-32768, 65535]`, so that it fits a word read as signed or as unsigned.  Strings
are quoted either way and stand for their UTF-8 bytes.
-/

namespace WordMachine

inductive LiteralError
  | malformedHex
  | malformedBinary
  | malformedChar
  | malformedDecimal
  | malformedString
  | unknownEscape (c : Char)
  | outOfRange (min max : Int)
  deriving DecidableEq

def LiteralError.message : LiteralError → String
  | malformedHex => "malformed hexadecimal literal"
  | malformedBinary => "malformed binary literal"
  | malformedChar => "malformed character literal"
  | malformedDecimal => "malformed decimal literal"
  | malformedString => "malformed string literal"
  | unknownEscape c => "unknown escape sequence `\\" ++ String.singleton c ++ "`"
  | outOfRange min max =>
      "literal out of range (allowed " ++ String.ofList (Text.signed min) ++ " to " ++
        String.ofList (Text.signed max) ++ ")"

namespace Literal

open Text

def minValue : Int := -32768

def maxValue : Int := 65535

/-- The value, if it lies in the closed interval. -/
def inRange (value min max : Int) : Except LiteralError Int :=
  if min ≤ value ∧ value ≤ max then .ok value else .error (.outOfRange min max)

theorem inRange_eq_ok_iff {value min max result : Int} :
    inRange value min max = .ok result ↔ result = value ∧ min ≤ value ∧ value ≤ max := by
  unfold inRange
  split
  next hbounds => simp [hbounds, eq_comm]
  next hbounds => simp [hbounds]

/-- Whether a token is meant as a number, by its first character. -/
def isNumericStart : Text → Bool
  | [] => false
  | c :: _ => c.isDigit || c ∈ ['$', '%', '\'', '-', '+']

def ofEscapeError : EscapeError → LiteralError
  | .unknown c => .unknownEscape c
  | .unfinished => .malformedString

/-- The body of a literal whose last character is the quote. -/
def body? (quote : Char) (rest : Text) : Option Text :=
  if rest.getLast? = some quote then some rest.dropLast else none

def readBody (body : Text) : Except LiteralError Text :=
  (unescape body).mapError ofEscapeError

/-- A character in single quotes. -/
def character (token : Text) : Except LiteralError Char :=
  match token with
  | '\'' :: rest =>
      match body? '\'' rest with
      | none | some [] => .error .malformedChar
      | some body => do
          match ← readBody body with
          | [c] => .ok c
          | _ => .error .malformedChar
  | _ => .error .malformedChar

/-- The bytes of a quoted string. -/
def bytes (token : Text) : Except LiteralError (List UInt8) :=
  match token with
  | quote :: rest =>
      if Quoting.isQuote quote then
        match body? quote rest with
        | none => .error .malformedString
        | some body => utf8 <$> readBody body
      else .error .malformedString
  | [] => .error .malformedString

/-! ## Numbers of 64 bits -/

/-- The number, if 64 bits can hold it. -/
def integer? (value : Int) : Option Int :=
  if -9223372036854775808 ≤ value ∧ value ≤ 9223372036854775807 then some value else none

/-- Put a digit behind a number of 64 bits, away from zero. -/
def shiftIn? (base : Nat) (negative : Bool) (total : Int) (digit : Nat) : Option Int := do
  let shifted ← integer? (total * base)
  integer? (if negative then shifted - digit else shifted + digit)

/-- The number that digits denote with a sign.  One that 64 bits cannot hold is out of range. -/
def digits (base : Nat) (malformed : LiteralError) (negative : Bool) (token : Text) :
    Except LiteralError Int :=
  match digits? base token with
  | none => .error malformed
  | some digits =>
      match digits.foldlM (shiftIn? base negative) 0 with
      | none => .error (.outOfRange minValue maxValue)
      | some value => .ok value

/-- A number with its sign. -/
def signedBy (negative : Bool) (n : Nat) : Int := if negative then -n else n

/-- The furthest from zero that 64 bits can hold with a sign. -/
def furthest (negative : Bool) : Nat :=
  if negative then 9223372036854775808 else 9223372036854775807

theorem integer?_signedBy (negative : Bool) (n : Nat) :
    integer? (signedBy negative n) =
      if n ≤ furthest negative then some (signedBy negative n) else none := by
  unfold integer? signedBy furthest
  cases negative with
  | false =>
      simp only [Bool.false_eq_true, if_false]
      congr 1
      apply propext
      omega
  | true =>
      simp only [if_true]
      congr 1
      apply propext
      omega

theorem shiftIn?_signedBy {base : Nat} (negative : Bool) {total : Nat} (digit : Nat) :
    shiftIn? base negative (signedBy negative total) digit =
      if total * base + digit ≤ furthest negative then
        some (signedBy negative (total * base + digit))
      else none := by
  have hproduct : signedBy negative total * base = signedBy negative (total * base) := by
    cases negative with
    | false => simp [signedBy]
    | true => simp only [signedBy, if_true, Int.natCast_mul, Int.neg_mul]
  have hsum : (if negative then signedBy negative (total * base) - digit
      else signedBy negative (total * base) + digit) =
        signedBy negative (total * base + digit) := by
    cases negative with
    | false => simp [signedBy]
    | true =>
        simp only [signedBy, if_true]
        omega
  rw [shiftIn?, hproduct, integer?_signedBy]
  split
  · rw [← integer?_signedBy, ← hsum]
    rfl
  · rw [if_neg (by omega)]
    rfl

theorem le_foldl_shift {base : Nat} (hbase : 1 ≤ base) (total : Nat) (digits : List Nat) :
    total ≤ digits.foldl (fun total digit => total * base + digit) total := by
  induction digits generalizing total with
  | nil => exact Nat.le_refl total
  | cons digit digits ih =>
      have hshift : total ≤ total * base := Nat.le_mul_of_pos_right total hbase
      have hrest := ih (total * base + digit)
      rw [List.foldl_cons]
      omega

/-- Digits only lead away from zero, so the checks on the way refuse no number that the last
one would not. -/
theorem foldlM_shiftIn? {base : Nat} (hbase : 1 ≤ base) (negative : Bool) {total : Nat}
    (hheld : total ≤ furthest negative) (digits : List Nat) :
    digits.foldlM (shiftIn? base negative) (signedBy negative total) =
      integer? (signedBy negative
        (digits.foldl (fun total digit => total * base + digit) total)) := by
  induction digits generalizing total with
  | nil =>
      rw [integer?_signedBy, List.foldl_nil, if_pos hheld]
      rfl
  | cons digit digits ih =>
      rw [List.foldlM_cons, List.foldl_cons, shiftIn?_signedBy]
      split
      next hfits => exact ih hfits
      next hexceeds =>
        have hlast := le_foldl_shift hbase (total * base + digit) digits
        rw [integer?_signedBy, if_neg (by omega)]
        rfl

/-- The number with its sign, unless 64 bits cannot hold it. -/
def held (negative : Bool) (n : Nat) : Except LiteralError Int :=
  match integer? (signedBy negative n) with
  | none => .error (.outOfRange minValue maxValue)
  | some value => .ok value

theorem held_of_le {negative : Bool} {n : Nat} (hheld : n ≤ furthest negative) :
    held negative n = .ok (signedBy negative n) := by
  rw [held, integer?_signedBy, if_pos hheld]

theorem held_of_lt {negative : Bool} {n : Nat} (hexceeds : furthest negative < n) :
    held negative n = .error (.outOfRange minValue maxValue) := by
  rw [held, integer?_signedBy, if_neg (by omega)]

/-- The digits of a numeral give the number that it denotes, as far as 64 bits reach. -/
theorem digits_of_value? {base n : Nat} {token : Text} (hbase : 1 ≤ base)
    (malformed : LiteralError) (negative : Bool) (hvalue : value? base token = some n) :
    digits base malformed negative token = held negative n := by
  obtain ⟨found, hdigits, rfl⟩ := Option.map_eq_some_iff.mp hvalue
  have hzero : signedBy negative 0 = 0 := by
    cases negative with
    | false => rfl
    | true => rfl
  have hread := foldlM_shiftIn? hbase negative (Nat.zero_le _) found
  rw [hzero] at hread
  rw [digits, hdigits, held, ← hread]

theorem digits_of_value?_eq_none {base : Nat} {token : Text} (malformed : LiteralError)
    (negative : Bool) (hvalue : value? base token = none) :
    digits base malformed negative token = .error malformed := by
  rw [digits, Option.map_eq_none_iff.mp hvalue]

def signedDecimal (token : Text) : Except LiteralError Int :=
  match token with
  | '-' :: rest => digits 10 .malformedDecimal true rest
  | '+' :: rest => digits 10 .malformedDecimal false rest
  | _ => digits 10 .malformedDecimal false token

/-- The value of a number token before its range is checked. -/
def unchecked (token : Text) : Except LiteralError Int :=
  match token with
  | '0' :: 'x' :: rest | '0' :: 'X' :: rest | '$' :: rest => digits 16 .malformedHex false rest
  | '0' :: 'b' :: rest | '0' :: 'B' :: rest | '%' :: rest => digits 2 .malformedBinary false rest
  | '\'' :: _ => (fun c => (c.toNat : Int)) <$> character token
  | _ => signedDecimal token

def number (token : Text) : Except LiteralError Int := do
  inRange (← unchecked token) minValue maxValue

end Literal
end WordMachine
