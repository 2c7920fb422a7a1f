import WordMachine.Proofs.NumberValues
import WordMachine.Proofs.QuotedLiterals

/-!
# Offsets behind a register

In brackets a register may be followed by a sign and an offset, with blanks on
both sides of the sign.  The offset is cut off as a text without blanks and is
then read as any other number, so every literal that fits is accepted but one:
the character literal of a blank is not taken for an offset, and the whole of
the brackets is refused.
-/

namespace WordMachine

open Text

/-! ## Register names -/

namespace Register

variable {name : Text} {base : Register}

/-- A register name is a letter and, behind it, letters or digits. -/
theorem letter_of_ofText? (hname : ofText? name = some base) :
    ∃ letter rest, name = letter :: rest ∧ letter.isAlpha = true ∧
      ∀ c ∈ rest, c.isAlphanum = true := by
  have htwo : ∀ first second : Char, first.isAlpha = true → second.isAlpha = true →
      upper name = [first, second] →
        ∃ letter rest, name = letter :: rest ∧ letter.isAlpha = true ∧
          ∀ c ∈ rest, c.isAlphanum = true := by
    intro first second hfirst hsecond hupper
    obtain ⟨letter, rest, rfl, hletter, hrest⟩ := List.map_eq_cons_iff.mp hupper
    obtain ⟨last, none, rfl, hlast, hnone⟩ := List.map_eq_cons_iff.mp hrest
    obtain rfl := List.map_eq_nil_iff.mp hnone
    rw [← hletter, isAlpha_toUpper] at hfirst
    rw [← hlast, isAlpha_toUpper] at hsecond
    exact ⟨letter, [last], rfl, hfirst, by simp [Char.isAlphanum, hsecond]⟩
  have hdigits : ∀ digits, (general <$> index? digits) = some base →
      ∀ c ∈ digits, c.isAlphanum = true := by
    intro digits hindex c hc
    obtain ⟨index, hindex, -⟩ := Option.map_eq_some_iff.mp hindex
    unfold index? at hindex
    split at hindex
    · cases hindex
    · split at hindex
      · cases hindex
      next n hvalue =>
        have hnumeral := (value?_eq_some_iff (by decide)).mp hvalue
        simp [Char.isAlphanum, isDigit_of_isNumeral hnumeral c hc]
  unfold ofText? at hname
  split at hname
  next hstack => exact htwo 'S' 'P' rfl rfl hstack
  · split at hname
    next hframe => exact htwo 'B' 'P' rfl rfl hframe
    · split at hname
      · exact ⟨_, _, rfl, rfl, hdigits _ hname⟩
      · exact ⟨_, _, rfl, rfl, hdigits _ hname⟩
      · cases hname

theorem isAlphanum_of_ofText? (hname : ofText? name = some base) :
    ∀ c ∈ name, c.isAlphanum = true := by
  obtain ⟨letter, rest, rfl, hletter, hrest⟩ := letter_of_ofText? hname
  simpa [Char.isAlphanum, hletter] using hrest

end Register

/-! ## Literals with and without blanks -/

namespace Literal

variable {token : Text} {value : Int}

/-- A blank in single quotes. -/
def IsBlankCharacter (token : Text) : Prop := ∃ c, isBlank c = true ∧ token = ['\'', c, '\'']

theorem isNumeral_of_digits {base : Nat} (hbase : 1 ≤ base) (hle : base ≤ 16)
    {malformed : LiteralError} {negative : Bool} {digits : Text}
    (hdigits : Literal.digits base malformed negative digits = .ok value) :
    ∃ n : Nat, IsNumeral base digits n ∧ value = signedBy negative n := by
  cases hvalue : value? base digits with
  | none =>
      rw [digits_of_value?_eq_none malformed negative hvalue] at hdigits
      cases hdigits
  | some n =>
      rw [digits_of_value? hbase malformed negative hvalue] at hdigits
      refine ⟨n, (value?_eq_some_iff hle).mp hvalue, ?_⟩
      by_cases hheld : n ≤ furthest negative
      · rw [held_of_le hheld] at hdigits
        cases hdigits
        rfl
      · rw [held_of_lt (Nat.lt_of_not_le hheld)] at hdigits
        cases hdigits

theorem denotes_of_signedDecimal (hsigned : signedDecimal token = .ok value) :
    Denotes token value := by
  revert hsigned
  fun_cases signedDecimal token with
  | case1 rest =>
      intro hdigits
      obtain ⟨n, hnumeral, rfl⟩ := isNumeral_of_digits (by decide) (by decide) hdigits
      exact .negative hnumeral
  | case2 rest =>
      intro hdigits
      obtain ⟨n, hnumeral, rfl⟩ := isNumeral_of_digits (by decide) (by decide) hdigits
      exact .positive hnumeral
  | case3 =>
      intro hdigits
      obtain ⟨n, hnumeral, rfl⟩ := isNumeral_of_digits (by decide) (by decide) hdigits
      exact .unsigned hnumeral

/-- A token with a value is a numeral in one of the forms, or a character. -/
theorem denotes_or_character (hunchecked : unchecked token = .ok value) :
    Denotes token value ∨ ∃ c, character token = .ok c := by
  have hhexadecimal : ∀ mark ∈ hexadecimalMarks, ∀ rest,
      Literal.digits 16 .malformedHex false rest = .ok value → Denotes (mark ++ rest) value := by
    intro mark hmark rest hdigits
    obtain ⟨n, hnumeral, rfl⟩ := isNumeral_of_digits (by decide) (by decide) hdigits
    exact .hexadecimal hmark hnumeral
  have hbinary : ∀ mark ∈ binaryMarks, ∀ rest,
      Literal.digits 2 .malformedBinary false rest = .ok value → Denotes (mark ++ rest) value := by
    intro mark hmark rest hdigits
    obtain ⟨n, hnumeral, rfl⟩ := isNumeral_of_digits (by decide) (by decide) hdigits
    exact .binary hmark hnumeral
  revert hunchecked
  fun_cases unchecked token with
  | case1 rest => exact fun hdigits => .inl (hhexadecimal ['0', 'x'] (by decide) rest hdigits)
  | case2 rest => exact fun hdigits => .inl (hhexadecimal ['0', 'X'] (by decide) rest hdigits)
  | case3 rest => exact fun hdigits => .inl (hhexadecimal ['$'] (by decide) rest hdigits)
  | case4 rest => exact fun hdigits => .inl (hbinary ['0', 'b'] (by decide) rest hdigits)
  | case5 rest => exact fun hdigits => .inl (hbinary ['0', 'B'] (by decide) rest hdigits)
  | case6 rest => exact fun hdigits => .inl (hbinary ['%'] (by decide) rest hdigits)
  | case7 rest =>
      intro hmap
      obtain ⟨c, hcharacter, -⟩ := exists_of_map_eq_ok hmap
      exact .inr ⟨c, hcharacter⟩
  | case8 => exact fun hsigned => .inl (denotes_of_signedDecimal hsigned)

theorem Denotes.visible (hdenotes : Denotes token value) : ∀ c ∈ token, isBlank c = false := by
  have hdigits : ∀ {base n digits}, base ≤ 16 → IsNumeral base digits n →
      ∀ c ∈ digits, isBlank c = false := by
    intro base n digits hle hnumeral c hc
    have hall : ∀ digit < 16, (!isBlank digit.digitChar) = true := by decide
    have hvisible := hnumeral.forall_mem blind_isBlank.not
      (fun digit hdigit => hall digit (by omega)) c hc
    simpa using hvisible
  have hmarks : ∀ mark ∈ hexadecimalMarks ++ binaryMarks, ∀ c ∈ mark, isBlank c = false := by
    simp [hexadecimalMarks, binaryMarks, isBlank, blankRanges]
  cases hdenotes with
  | hexadecimal hmark hnumeral =>
      intro c hc
      rcases List.mem_append.mp hc with hfront | hback
      · exact hmarks _ (List.mem_append_left _ hmark) c hfront
      · exact hdigits (by decide) hnumeral c hback
  | binary hmark hnumeral =>
      intro c hc
      rcases List.mem_append.mp hc with hfront | hback
      · exact hmarks _ (List.mem_append_right _ hmark) c hfront
      · exact hdigits (by decide) hnumeral c hback
  | unsigned hnumeral => exact hdigits (by decide) hnumeral
  | positive hnumeral | negative hnumeral =>
      intro c hc
      rcases List.mem_cons.mp hc with rfl | hback
      · decide
      · exact hdigits (by decide) hnumeral c hback

theorem Denotes.isIdentifier_eq_false (hdenotes : Denotes token value) :
    isIdentifier token = false := by
  have hmarks : ∀ mark ∈ hexadecimalMarks ++ binaryMarks, ∀ rest,
      isIdentifier (mark ++ rest) = false := by
    simp [hexadecimalMarks, binaryMarks, isIdentifier, isIdentifierStart]
  cases hdenotes with
  | hexadecimal hmark => exact hmarks _ (List.mem_append_left _ hmark) _
  | binary hmark => exact hmarks _ (List.mem_append_right _ hmark) _
  | unsigned hnumeral =>
      cases token with
      | nil => rfl
      | cons c rest =>
          have hdigit := isDigit_of_isNumeral hnumeral c (by simp)
          simp [isIdentifier, not_isIdentifierStart_of_isDigit hdigit]
  | positive | negative => rfl

theorem Denotes.ne_nil (hdenotes : Denotes token value) : token ≠ [] := by
  rintro rfl
  have hmalformed : fitted value = .error .malformedDecimal := (number_of_denotes hdenotes).symm
  unfold fitted at hmalformed
  split at hmalformed
  · cases hmalformed
  · cases hmalformed

theorem isBlank_of_escapeValue {escape d : Char} (hvalue : escapeValue escape = some d) :
    isBlank escape = false := by
  revert hvalue
  fun_cases escapeValue escape with
  | case8 => nofun
  | _ => exact fun _ => by decide

/-- A character is the one between two quotes, which may be a blank, or an escape, which holds
none. -/
theorem isBlankCharacter_or_visible {c : Char} (hcharacter : character token = .ok c) :
    IsBlankCharacter token ∨ ∀ d ∈ token, isBlank d = false := by
  obtain ⟨body, rfl, hread⟩ := exists_body_of_character hcharacter
  have hbody : (∃ d, isBlank d = true ∧ body = [d]) ∨ ∀ d ∈ body, isBlank d = false := by
    revert hread
    fun_cases unescape body with
    | case1 => nofun
    | case2 => nofun
    | case3 => nofun
    | case4 escape rest value hvalue =>
        intro hmap
        obtain ⟨text, hrest, hcons⟩ := exists_of_map_eq_ok hmap
        obtain ⟨rfl, rfl⟩ := List.cons.inj hcons
        obtain rfl := eq_nil_of_unescape hrest
        have hbackslash : isBlank '\\' = false := by decide
        right
        simp [hbackslash, isBlank_of_escapeValue hvalue]
    | case5 d rest =>
        intro hmap
        obtain ⟨text, hrest, hcons⟩ := exists_of_map_eq_ok hmap
        obtain ⟨rfl, rfl⟩ := List.cons.inj hcons
        obtain rfl := eq_nil_of_unescape hrest
        cases hblank : isBlank d with
        | true => exact .inl ⟨d, hblank, rfl⟩
        | false => exact .inr (by simpa using hblank)
  rcases hbody with ⟨d, hd, rfl⟩ | hvisible
  · exact .inl ⟨d, hd, rfl⟩
  · have hquote : isBlank '\'' = false := by decide
    right
    intro d hd
    rcases List.mem_append.mp hd with hfront | hlast
    · rcases List.mem_cons.mp hfront with rfl | hmem
      · exact hquote
      · exact hvisible d hmem
    · rw [List.mem_singleton.mp hlast, hquote]

/-- What is known of the text of a number without reading it. -/
theorem text_of_number (hnumber : number token = .ok value) :
    token ≠ [] ∧ isIdentifier token = false ∧
      (IsBlankCharacter token ∨ ∀ c ∈ token, isBlank c = false) := by
  obtain ⟨found, hunchecked, -⟩ := exists_of_bind_eq_ok hnumber
  rcases denotes_or_character hunchecked with hdenotes | ⟨c, hcharacter⟩
  · exact ⟨hdenotes.ne_nil, hdenotes.isIdentifier_eq_false, .inr hdenotes.visible⟩
  · refine ⟨?_, ?_, isBlankCharacter_or_visible hcharacter⟩
    · rintro rfl
      cases hcharacter
    · obtain ⟨body, rfl, -⟩ := exists_body_of_character hcharacter
      rfl

theorem isTight_of_number (hnumber : number token = .ok value) : IsTight token := by
  obtain ⟨hne, -, ⟨c, -, rfl⟩ | hvisible⟩ := text_of_number hnumber
  · exact ⟨⟨'\'', [c, '\''], rfl, by decide⟩, ⟨['\'', c], '\'', rfl, by decide⟩⟩
  · exact .of_forall hne hvisible

end Literal

/-! ## The result -/

namespace Operand

variable {table : SymbolTable} {inner token : Text} {base : Register} {sign : Char}
  {value offset : Int}

theorem parse_bracketed (htight : IsTight inner) :
    parse table ('[' :: inner ++ [']']) = memory <$> address table inner := by
  have hparse : parse table ('[' :: inner ++ [']']) =
      if (inner ++ [']']).getLast? = some ']' then
        memory <$> address table (trim (inner ++ [']']).dropLast)
      else .error (.badOperand ('[' :: inner ++ [']'])) := rfl
  rw [hparse, if_pos (by simp), List.dropLast_concat, htight.trim_eq]

theorem address_of_splitOffset? (hsplit : splitOffset? inner = some (base, sign, token))
    (hnumber : Literal.number token = .ok value)
    (hoffset : offset = if sign = '-' then -value else value) (hmin : -32768 ≤ offset)
    (hmax : offset ≤ 32767) : address table inner = .ok (.indirect base offset) := by
  obtain ⟨-, hidentifier, -⟩ := Literal.text_of_number hnumber
  have hvalue : Operand.value table token = .ok value := by
    rw [Operand.value, hidentifier, hnumber]
    rfl
  have hrange := Literal.inRange_eq_ok_iff.mpr ⟨hoffset, hoffset ▸ hmin, hoffset ▸ hmax⟩
  rw [address, hsplit]
  simp only [hvalue, ok_bind, OperandError.inToken, hrange, mapError_ok]

/-- What starts with a letter and holds a sign is no register, no number and no name. -/
theorem address_of_sign {letter : Char} {rest : Text}
    (hsplit : splitOffset? (letter :: rest) = none) (hletter : letter.isAlpha = true)
    (hsign : sign = '+' ∨ sign = '-') (hmem : sign ∈ rest) :
    address table (letter :: rest) = .error (.badOperand (letter :: rest)) := by
  have hother : sign.isAlphanum = false ∧ isIdentifierRest sign = false := by
    rcases hsign with rfl | rfl <;> decide
  have hregister : Register.ofText? (letter :: rest) = none := by
    rw [Option.eq_none_iff_forall_ne_some]
    intro base hname
    have halphanum := Register.isAlphanum_of_ofText? hname sign (List.mem_cons_of_mem _ hmem)
    rw [hother.1] at halphanum
    cases halphanum
  have hnumeric : Literal.isNumericStart (letter :: rest) = false := by
    have hdigit : letter.isDigit = false := by
      rw [← Bool.not_eq_true, isDigit_iff]
      rw [isAlpha_iff] at hletter
      omega
    have hmark : letter ∉ ['$', '%', '\'', '-', '+'] := by
      have hmarks : ∀ mark ∈ ['$', '%', '\'', '-', '+'], mark.isAlpha = false := by simp
      intro hmark
      rw [hmarks letter hmark] at hletter
      cases hletter
    simp only [Literal.isNumericStart, hdigit, hmark, decide_false, Bool.or_self]
  have hname : isIdentifier (letter :: rest) = false := by
    rw [← Bool.not_eq_true]
    intro hname
    have hrest := isIdentifierRest_of_mem hname sign (List.mem_cons_of_mem _ hmem)
    rw [hother.2] at hrest
    cases hrest
  rw [address, hsplit]
  simp [hregister, hnumeric, hname]

end Operand

open Operand

/-- An offset behind a register and a sign, with blanks around the sign or without, is read as the
number that it is, unless it is the character literal of a blank: then the brackets are refused as
a whole. -/
theorem offset_is_read_unless_blank (table : SymbolTable) {name before after token : Text}
    {base : Register} {sign : Char} {value offset : Int}
    (hname : Register.ofText? name = some base) (hsign : sign = '+' ∨ sign = '-')
    (hbefore : ∀ c ∈ before, isBlank c = true) (hafter : ∀ c ∈ after, isBlank c = true)
    (hnumber : Literal.number token = .ok value)
    (hoffset : offset = if sign = '-' then -value else value) (hmin : -32768 ≤ offset)
    (hmax : offset ≤ 32767) :
    let inner := name ++ before ++ sign :: (after ++ token)
    (¬Literal.IsBlankCharacter token →
        parse table ('[' :: inner ++ [']']) = .ok (.memory (.indirect base offset))) ∧
      (Literal.IsBlankCharacter token →
        parse table ('[' :: inner ++ [']']) = .error (.badOperand inner)) := by
  intro inner
  have htoken : IsTight token := Literal.isTight_of_number hnumber
  have hsplit : splitOffset? inner = if token.any isBlank then none else some (base, sign, token) :=
    splitOffset?_append hname (Register.isAlphanum_of_ofText? hname) hbefore hsign hafter htoken
  obtain ⟨letter, rest, hletters, hletter, -⟩ := Register.letter_of_ofText? hname
  have htight : IsTight inner := by
    have hregister : IsTight name := by
      refine .of_forall (by simp [hletters]) fun c hc => ?_
      rw [← Bool.not_eq_true]
      intro hblank
      have halphanum := Register.isAlphanum_of_ofText? hname c hc
      rw [isAlphanum_of_isBlank hblank] at halphanum
      cases halphanum
    simpa [inner] using hregister.append (before ++ sign :: after) htoken
  rw [parse_bracketed htight]
  constructor
  · intro hother
    have hany : token.any isBlank = false := by
      obtain ⟨-, -, hblank | hvisible⟩ := Literal.text_of_number hnumber
      · exact absurd hblank hother
      · simpa using hvisible
    rw [hany] at hsplit
    rw [address_of_splitOffset? hsplit hnumber hoffset hmin hmax, map_ok]
  · rintro ⟨c, hc, rfl⟩
    have hnone : splitOffset? inner = none := by simpa [hc] using hsplit
    have hinner : inner = letter :: (rest ++ before ++ sign :: (after ++ ['\'', c, '\''])) := by
      simp [inner, hletters]
    rw [hinner] at hnone ⊢
    rw [address_of_sign hnone hletter hsign (by simp)]
    rfl

theorem offset_is_read_unless_blank_spaced :
    parse {} "[bp - '~']".toList = .ok (.memory (.indirect .basePointer (-126))) ∧
      parse {} "[SP+' ']".toList = .error (.badOperand "SP+' '".toList) := by
  have hframe : Register.ofText? "bp".toList = some .basePointer := rfl
  have hstack : Register.ofText? "SP".toList = some .stackPointer := rfl
  have hgap : ∀ c ∈ [' '], isBlank c = true := List.all_eq_true.mp rfl
  have htilde : Literal.number "'~'".toList = .ok 126 := by decide
  have hspace : Literal.number "' '".toList = .ok 32 := by decide
  have hvisible : ¬Literal.IsBlankCharacter "'~'".toList := by
    rintro ⟨c, hc, htoken⟩
    cases htoken
    cases hc
  obtain ⟨hread, -⟩ := offset_is_read_unless_blank {} hframe (.inr rfl) hgap hgap htilde rfl
    (by decide) (by decide)
  obtain ⟨-, hrefused⟩ := offset_is_read_unless_blank {} hstack (.inl rfl) (List.forall_mem_nil _)
    (List.forall_mem_nil _) hspace rfl (by decide) (by decide)
  exact ⟨hread hvisible, hrefused ⟨' ', rfl, rfl⟩⟩

/-- The literal of a blank fits an offset and is not read as one. -/
theorem not_every_fitting_literal_is_an_offset :
    ¬∀ (table : SymbolTable) (name token : Text) (base : Register) (sign : Char)
        (value offset : Int),
        Register.ofText? name = some base → sign = '+' ∨ sign = '-' →
          Literal.number token = .ok value → (offset = if sign = '-' then -value else value) →
            -32768 ≤ offset → offset ≤ 32767 →
              parse table ('[' :: name ++ sign :: token ++ [']']) =
                .ok (.memory (.indirect base offset)) := by
  intro hall
  have hstack : Register.ofText? "SP".toList = some .stackPointer := rfl
  have hspace : Literal.number "' '".toList = .ok 32 := by decide
  have hread := hall {} _ _ _ '+' _ _ hstack (.inl rfl) hspace rfl (by decide) (by decide)
  cases hread

end WordMachine
