import WordMachine.Text.Blank

/-!
# Letter case and names

Names are compared without regard to the case of ASCII letters; every other
character stands for itself.  An identifier is an ASCII letter or underscore
followed by ASCII letters, digits and underscores.
-/

namespace WordMachine
namespace Text

def upper (text : Text) : Text := text.map Char.toUpper

/-- Equality up to the case of ASCII letters. -/
def sameWord (a b : Text) : Bool := upper a == upper b

def isIdentifierStart (c : Char) : Bool := c.isAlpha || c == '_'

def isIdentifierRest (c : Char) : Bool := c.isAlphanum || c == '_'

/-- Whether the text may name a label or a constant. -/
def isIdentifier : Text → Bool
  | [] => false
  | c :: rest => isIdentifierStart c && rest.all isIdentifierRest

theorem isAlpha_iff {c : Char} :
    c.isAlpha = true ↔
      65 ≤ c.toNat ∧ c.toNat ≤ 90 ∨ 97 ≤ c.toNat ∧ c.toNat ≤ 122 := by
  have halpha : c.isAlpha = (decide (65 ≤ c.val ∧ c.val ≤ 90) ||
      (decide (97 ≤ c.val) && decide (c.val ≤ 122))) := rfl
  simp [halpha, UInt32.le_iff_toNat_le]

theorem isDigit_iff {c : Char} : c.isDigit = true ↔ 48 ≤ c.toNat ∧ c.toNat ≤ 57 :=
  Char.isDigit_iff_toNat

theorem ne_nil_of_isIdentifier {name : Text} (hname : isIdentifier name = true) : name ≠ [] := by
  rintro rfl
  cases hname

theorem isIdentifierRest_of_mem {name : Text} (hname : isIdentifier name = true) :
    ∀ c ∈ name, isIdentifierRest c = true := by
  cases name with
  | nil => nofun
  | cons first rest =>
      have hparts : isIdentifierStart first = true ∧ ∀ c ∈ rest, isIdentifierRest c = true := by
        simpa [isIdentifier] using hname
      have hfirst : isIdentifierRest first = true := by
        rcases Bool.or_eq_true_iff.mp hparts.1 with hletter | hunderscore
        · simp [isIdentifierRest, Char.isAlphanum, hletter]
        · simp [isIdentifierRest, hunderscore]
      simpa [hfirst] using hparts.2

theorem not_isIdentifierStart_of_isDigit {c : Char} (hc : c.isDigit = true) :
    isIdentifierStart c = false := by
  have hdigit := isDigit_iff.mp hc
  have hletter : c.isAlpha = false := by
    rw [← Bool.not_eq_true, isAlpha_iff]
    omega
  have hunderscore : c ≠ '_' := by
    rintro rfl
    cases hc
  simp [isIdentifierStart, hletter, hunderscore]

end Text
end WordMachine
