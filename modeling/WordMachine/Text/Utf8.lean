import WordMachine.Text.Blank

/-!
# UTF-8

Columns and offsets count bytes of UTF-8.  `width` is the length of a text in
that unit and `utf8` its bytes.  `ofUtf8` reads bytes back and puts one
replacement character for each maximal part that begins no character.
-/

namespace WordMachine
namespace Text

/-- The number of UTF-8 bytes of a text. -/
def width (text : Text) : Nat := text.foldr (fun c width => c.utf8Size + width) 0

@[simp] theorem width_nil : width [] = 0 := rfl

@[simp] theorem width_cons (c : Char) (text : Text) :
    width (c :: text) = c.utf8Size + width text := rfl

@[simp] theorem width_append (a b : Text) : width (a ++ b) = width a + width b := by
  induction a with
  | nil => simp
  | cons c a ih => simp [ih, Nat.add_assoc]

def utf8 (text : Text) : List UInt8 := text.flatMap String.utf8EncodeChar

theorem length_utf8 (text : Text) : (utf8 text).length = width text := by
  induction text with
  | nil => rfl
  | cons c text ih =>
      rw [utf8, List.flatMap_cons, List.length_append, String.length_utf8EncodeChar, width_cons]
      exact congrArg (c.utf8Size + ·) ih

/-- The character `U+FFFD`, which stands for bytes that cannot be read. -/
def replacement : Char := Char.ofNat 0xfffd

def isContinuation (byte : UInt8) : Bool := 0x80 ≤ byte && byte ≤ 0xbf

/--
How many bytes follow a leading byte, and the range that the first of them must
lie in.  A byte that leads no character has none.
-/
def leading (byte : UInt8) : Option (Nat × UInt8 × UInt8) :=
  if 0xc2 ≤ byte && byte ≤ 0xdf then some (1, 0x80, 0xbf)
  else if byte == 0xe0 then some (2, 0xa0, 0xbf)
  else if byte == 0xed then some (2, 0x80, 0x9f)
  else if 0xe1 ≤ byte && byte ≤ 0xef then some (2, 0x80, 0xbf)
  else if byte == 0xf0 then some (3, 0x90, 0xbf)
  else if 0xf1 ≤ byte && byte ≤ 0xf3 then some (3, 0x80, 0xbf)
  else if byte == 0xf4 then some (3, 0x80, 0x8f)
  else none

/--
Take up to `count` continuation bytes, adding six bits each.  The flag tells
whether all of them were there.
-/
def continuations (code : Nat) : Nat → List UInt8 → Nat × Bool × List UInt8
  | 0, bytes => (code, true, bytes)
  | _ + 1, [] => (code, false, [])
  | count + 1, byte :: rest =>
      if isContinuation byte then
        continuations (code * 64 + byte.toNat % 64) count rest
      else (code, false, byte :: rest)

theorem length_continuations_le (code count : Nat) (bytes : List UInt8) :
    (continuations code count bytes).2.2.length ≤ bytes.length := by
  fun_induction continuations code count bytes with
  | case1 => simp
  | case2 => simp
  | case3 code count byte rest _ ih => simp only [List.length_cons]; omega
  | case4 => simp

/-- The character that a nonempty list of bytes begins with, and the bytes after it. -/
def firstChar (byte : UInt8) (rest : List UInt8) : Char × List UInt8 :=
  if byte < 0x80 then (Char.ofNat byte.toNat, rest)
  else
    match leading byte, rest with
    | some (count, low, high), second :: rest' =>
        if low ≤ second && second ≤ high then
          let start := byte.toNat % (1 <<< (6 - count)) * 64 + second.toNat % 64
          match continuations start (count - 1) rest' with
          | (code, true, after) => (Char.ofNat code, after)
          | (_, false, after) => (replacement, after)
        else (replacement, rest)
    | _, _ => (replacement, rest)

theorem length_firstChar_le (byte : UInt8) (rest : List UInt8) :
    (firstChar byte rest).2.length ≤ rest.length := by
  fun_cases firstChar byte rest with
  | case1 => simp
  | case2 _ count _ _ _ rest' _ _ start _ _ heq =>
      have h := length_continuations_le start (count - 1) rest'
      rw [heq] at h
      simp only [List.length_cons] at h ⊢
      omega
  | case3 _ count _ _ _ rest' _ _ start _ _ heq =>
      have h := length_continuations_le start (count - 1) rest'
      rw [heq] at h
      simp only [List.length_cons] at h ⊢
      omega
  | case4 => simp
  | case5 => simp

/-- The text of a list of bytes; what cannot be read shows as `replacement`. -/
def ofUtf8 : List UInt8 → Text
  | [] => []
  | byte :: rest => (firstChar byte rest).1 :: ofUtf8 (firstChar byte rest).2
termination_by bytes => bytes.length
decreasing_by
  have := length_firstChar_le byte rest
  simp
  omega

end Text
end WordMachine
