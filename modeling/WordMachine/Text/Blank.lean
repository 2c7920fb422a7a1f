/-!
# Blank characters

Source text is a list of characters.  Words in it are separated by blanks: the
characters with the Unicode property `White_Space`, which is more than the
ASCII ones.  Trimming, leading words and word lists are all relative to that
class.
-/

namespace WordMachine

abbrev Text := List Char

namespace Text

/-- The code points of the property `White_Space`, as closed ranges. -/
def blankRanges : List (Nat × Nat) :=
  [(0x09, 0x0d), (0x20, 0x20), (0x85, 0x85), (0xa0, 0xa0), (0x1680, 0x1680),
    (0x2000, 0x200a), (0x2028, 0x2029), (0x202f, 0x202f), (0x205f, 0x205f),
    (0x3000, 0x3000)]

def isBlank (c : Char) : Bool :=
  blankRanges.any fun range => range.1 ≤ c.toNat && c.toNat ≤ range.2

def trimLeft (text : Text) : Text := text.dropWhile isBlank

def trimRight (text : Text) : Text := (text.reverse.dropWhile isBlank).reverse

def trim (text : Text) : Text := trimRight (trimLeft text)

theorem trimLeft_cons {c : Char} (hc : isBlank c = false) (rest : Text) :
    trimLeft (c :: rest) = c :: rest := by
  simp [trimLeft, hc]

theorem trimLeft_blank {c : Char} (hc : isBlank c = true) (rest : Text) :
    trimLeft (c :: rest) = trimLeft rest := by
  simp [trimLeft, hc]

theorem trimRight_append_singleton {c : Char} (hc : isBlank c = false) (front : Text) :
    trimRight (front ++ [c]) = front ++ [c] := by
  simp [trimRight, hc]

theorem trimRight_append_blanks (text : Text) {blanks : Text}
    (hblanks : ∀ c ∈ blanks, isBlank c = true) : trimRight (text ++ blanks) = trimRight text := by
  have hreverse : ∀ c ∈ blanks.reverse, isBlank c = true := by simpa using hblanks
  simp only [trimRight, List.reverse_append]
  rw [List.dropWhile_append_of_pos hreverse]

theorem trimRight_blanks {blanks : Text} (hblanks : ∀ c ∈ blanks, isBlank c = true) :
    trimRight blanks = [] :=
  trimRight_append_blanks [] hblanks

/-! ## Where a word stops -/

section

variable {p : Char → Bool} {word : Text} {stop : Char}

theorem takeWhile_stop (hword : ∀ c ∈ word, p c = true) (hstop : p stop = false) (rest : Text) :
    (word ++ stop :: rest).takeWhile p = word := by
  rw [List.takeWhile_append_of_pos hword]
  simp [hstop]

theorem dropWhile_stop (hword : ∀ c ∈ word, p c = true) (hstop : p stop = false) (rest : Text) :
    (word ++ stop :: rest).dropWhile p = stop :: rest := by
  rw [List.dropWhile_append_of_pos hword]
  simp [hstop]

end

/-- The text is not empty, and no blanks stand around it. -/
structure IsTight (text : Text) : Prop where
  first : ∃ c rest, text = c :: rest ∧ isBlank c = false
  last : ∃ front c, text = front ++ [c] ∧ isBlank c = false

namespace IsTight

variable {text a b : Text}

theorem trimLeft_eq (htight : IsTight text) : trimLeft text = text := by
  obtain ⟨c, rest, rfl, hc⟩ := htight.first
  exact trimLeft_cons hc rest

theorem trimRight_eq (htight : IsTight text) : trimRight text = text := by
  obtain ⟨front, c, rfl, hc⟩ := htight.last
  exact trimRight_append_singleton hc front

theorem trim_eq (htight : IsTight text) : trim text = text := by
  rw [trim, htight.trimLeft_eq, htight.trimRight_eq]

theorem trim_blank (htight : IsTight text) {c : Char} (hc : isBlank c = true) :
    trim (c :: text) = text := by
  rw [trim, trimLeft_blank hc, htight.trimLeft_eq, htight.trimRight_eq]

theorem ne_nil (htight : IsTight text) : text ≠ [] := by
  obtain ⟨c, rest, rfl, -⟩ := htight.first
  simp

theorem append (ha : IsTight a) (middle : Text) (hb : IsTight b) : IsTight (a ++ middle ++ b) := by
  obtain ⟨c, rest, rfl, hc⟩ := ha.first
  obtain ⟨front, d, rfl, hd⟩ := hb.last
  exact ⟨⟨c, rest ++ middle ++ (front ++ [d]), by simp, hc⟩,
    ⟨c :: rest ++ middle ++ front, d, by simp, hd⟩⟩

theorem of_forall (hne : text ≠ []) (hall : ∀ c ∈ text, isBlank c = false) : IsTight text where
  first := by
    obtain ⟨c, rest, rfl⟩ := List.exists_cons_of_ne_nil hne
    exact ⟨c, rest, rfl, hall c (by simp)⟩
  last :=
    ⟨text.dropLast, text.getLast hne, (List.dropLast_concat_getLast hne).symm,
      hall _ (List.getLast_mem hne)⟩

end IsTight

/-- The characters up to the first blank. -/
def firstWord (text : Text) : Text := text.takeWhile (!isBlank ·)

/-- What follows the first word, blanks included. -/
def afterFirstWord (text : Text) : Text := text.dropWhile (!isBlank ·)

theorem firstWord_append_afterFirstWord (text : Text) :
    firstWord text ++ afterFirstWord text = text :=
  List.takeWhile_append_dropWhile

/-- The maximal runs of characters that are not blank. -/
def words (text : Text) : List Text :=
  (text.splitOnP isBlank).filter (!·.isEmpty)

end Text
end WordMachine
