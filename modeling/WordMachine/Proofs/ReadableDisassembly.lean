import WordMachine.Disassembly
import WordMachine.Proofs.BranchTargets
import WordMachine.Proofs.OperandLists

/-!
# Disassembly read back

The spelling of an operand is read as that operand again, under the symbols with
which it was first read: a number as its value, and a name that was no constant
as that name.  A whole instruction comes apart into its mnemonic and the
spellings of its operands.
-/

namespace WordMachine

open Text

/-! ## The characters of a spelling -/

/-- The characters of rendered operands, brackets apart. -/
def Text.isRendered (c : Char) : Bool := isIdentifierRest c || c ∈ ['#', '-', '+']

theorem isBlank_of_isRendered {c : Char} (hc : isRendered c = true) : isBlank c = false := by
  have hrange : 35 ≤ c.toNat ∧ c.toNat < 123 := by
    simp [isRendered, isIdentifierRest, Char.isAlphanum, isAlpha_iff, isDigit_iff] at hc
    rcases hc with (hword | rfl) | rfl | rfl | rfl
    · omega
    all_goals decide
  simp [isBlank, blankRanges]
  omega

theorem isAlphanum_of_isBlank {c : Char} (hc : isBlank c = true) : c.isAlphanum = false := by
  rw [← Bool.not_eq_true]
  intro halphanum
  have hrendered : isRendered c = true := by simp [isRendered, isIdentifierRest, halphanum]
  rw [isBlank_of_isRendered hrendered] at hc
  cases hc

theorem isPlain_of_isRendered {c : Char} (hc : isRendered c = true) : Piece.IsPlain c where
  quote := by
    rw [← Bool.not_eq_true, Quoting.isQuote_iff]
    rintro (rfl | rfl) <;> cases hc
  comma := by
    rintro rfl
    cases hc
  opening := by
    rintro rfl
    cases hc
  closing := by
    rintro rfl
    cases hc

theorem isRendered_of_isIdentifier {name : Text} (hname : isIdentifier name = true) :
    ∀ c ∈ name, isRendered c = true := by
  intro c hc
  simp [isRendered, isIdentifierRest_of_mem hname c hc]

theorem isRendered_of_mem_toDigits {base n : Nat} {c : Char} (hbase : 1 < base) (hle : base ≤ 16)
    (hc : c ∈ Nat.toDigits base n) : isRendered c = true := by
  have hdigits : ∀ digit < 16, isRendered digit.digitChar = true := by decide
  obtain ⟨digit, hdigit, rfl⟩ := exists_digit_of_mem_toDigits hbase hc
  exact hdigits digit (by omega)

theorem isRendered_of_mem_decimal {n : Nat} : ∀ c ∈ decimal n, isRendered c = true :=
  fun _ hc => isRendered_of_mem_toDigits (by decide) (by decide) hc

theorem isRendered_of_mem_signed {value : Int} : ∀ c ∈ signed value, isRendered c = true := by
  have hminus : isRendered '-' = true := by decide
  unfold signed
  split
  · simpa [hminus] using isRendered_of_mem_decimal
  · exact isRendered_of_mem_decimal

theorem isRendered_of_mem_hexWord {n : Nat} : ∀ c ∈ hexWord n, isRendered c = true := by
  have hzero : isRendered '0' = true := by decide
  have hmark : isRendered 'x' = true := by decide
  have hdigits : ∀ c ∈ hexadecimal n, isRendered c = true :=
    fun c hc => isRendered_of_mem_toDigits (by decide) (by decide) hc
  intro c hc
  simp only [hexWord, padLeft, List.mem_cons, List.mem_append, List.mem_replicate] at hc
  rcases hc with rfl | rfl | ⟨-, rfl⟩ | hdigit
  · exact hzero
  · exact hmark
  · exact hzero
  · exact hdigits c hdigit

theorem Register.isRendered_of_mem (register : Register) :
    ∀ c ∈ register.render, isRendered c = true := by
  cases register with
  | general index =>
      have hletter : isRendered 'R' = true := by decide
      simpa [render, hletter] using isRendered_of_mem_decimal
  | stackPointer | basePointer => exact List.all_eq_true.mp rfl

theorem Address.isRendered_of_mem_renderOffset (offset : Int) :
    ∀ c ∈ renderOffset offset, isRendered c = true := by
  have hminus : isRendered '-' = true := by decide
  have hplus : isRendered '+' = true := by decide
  unfold renderOffset
  split
  · nofun
  · split
    · simpa [hminus] using isRendered_of_mem_decimal
    · simpa [hplus] using isRendered_of_mem_decimal

theorem Register.render_ne_nil (register : Register) : register.render ≠ [] := by
  cases register <;> simp [render]

theorem isTight_of_isRendered {text : Text} (hne : text ≠ [])
    (hall : ∀ c ∈ text, isRendered c = true) : IsTight text :=
  .of_forall hne fun c hc => isBlank_of_isRendered (hall c hc)

/-! ## Registers and numbers read back -/

theorem Register.ofText?_render (register : Register) :
    ofText? register.render = some register := by
  cases register with
  | general index =>
      have hgeneral : ∀ index : Fin 16, ofText? (general index).render = some (general index) := by
        decide
      exact hgeneral index
  | stackPointer | basePointer => rfl

theorem decimal_natCast (n : Nat) : signed n = decimal n := by
  simp [signed]

theorem signed_ne_nil (value : Int) : signed value ≠ [] := by
  unfold signed
  split
  · simp
  · simp [decimal, Nat.toDigits_ne_nil]

theorem isDigit_of_mem_decimal {n : Nat} {c : Char} (hc : c ∈ decimal n) : c.isDigit = true :=
  Nat.isDigit_of_mem_toDigits (by decide) (by decide) hc

theorem not_isIdentifier_signed (value : Int) : isIdentifier (signed value) = false := by
  unfold signed
  split
  · rfl
  · cases hdecimal : decimal value.natAbs with
    | nil => rfl
    | cons c rest =>
        have hmem : c ∈ decimal value.natAbs := by simp [hdecimal]
        simp [isIdentifier, not_isIdentifierStart_of_isDigit (isDigit_of_mem_decimal hmem)]

namespace Literal

theorem digits_decimal (malformed : LiteralError) (negative : Bool) (n : Nat) :
    digits 10 malformed negative (decimal n) = held negative n := by
  have hpadded : value? 10 (padLeft '0' 0 (decimal n)) = some n :=
    value?_padLeft_toDigits (by decide) (by decide) 0 n
  exact digits_of_value? (by decide) malformed negative (by simpa [padLeft] using hpadded)

/-- Digits alone carry no mark of another form. -/
theorem unchecked_of_digits {token : Text} (hdigits : ∀ c ∈ token, c.isDigit = true) :
    unchecked token = digits 10 .malformedDecimal false token := by
  fun_cases unchecked token with
  | case1 | case2 | case3 | case4 | case5 | case6 | case7 => simp at hdigits
  | case8 =>
      fun_cases signedDecimal token with
      | case1 | case2 => simp at hdigits
      | case3 => rfl

theorem held_of_fits {value : Int} (hmin : minValue ≤ value) (hmax : value ≤ maxValue) :
    held (decide (value < 0)) value.natAbs = .ok value := by
  unfold minValue maxValue at *
  have hheld : value.natAbs ≤ furthest (decide (value < 0)) := by
    unfold furthest
    split <;> omega
  have hsigned : signedBy (decide (value < 0)) value.natAbs = value := by
    unfold signedBy
    simp only [decide_eq_true_eq]
    split <;> omega
  rw [held_of_le hheld, hsigned]

theorem unchecked_signed {value : Int} (hmin : minValue ≤ value) (hmax : value ≤ maxValue) :
    unchecked (signed value) = .ok value := by
  have hheld := held_of_fits hmin hmax
  unfold signed
  split
  next hnegative =>
    rw [decide_eq_true hnegative, ← digits_decimal .malformedDecimal] at hheld
    exact hheld
  next hpositive =>
    rw [decide_eq_false hpositive, ← digits_decimal .malformedDecimal] at hheld
    rwa [unchecked_of_digits fun c hc => isDigit_of_mem_decimal hc]

theorem number_signed {value : Int} (hmin : minValue ≤ value) (hmax : value ≤ maxValue) :
    number (signed value) = .ok value := by
  have hrange := inRange_eq_ok_iff.mpr ⟨rfl, hmin, hmax⟩
  rw [number, unchecked_signed hmin hmax]
  exact hrange

theorem number_hexWord {n : Nat} (hn : n < 65536) : number (hexWord n) = .ok n := by
  have hunchecked : unchecked (hexWord n) = .ok n := by
    have hvalue : value? 16 (padLeft '0' 4 (hexadecimal n)) = some n :=
      value?_padLeft_toDigits (by decide) (by decide) 4 n
    have hmark : unchecked (hexWord n) =
        digits 16 .malformedHex false (padLeft '0' 4 (hexadecimal n)) := rfl
    have hheld : n ≤ furthest false := by
      unfold furthest
      simp only [Bool.false_eq_true, if_false]
      omega
    rw [hmark, digits_of_value? (by decide) _ _ hvalue, held_of_le hheld]
    rfl
  have hrange : inRange n minValue maxValue = .ok (n : Int) := by
    simp [inRange_eq_ok_iff, minValue, maxValue]
    omega
  rw [number, hunchecked]
  exact hrange

end Literal

/-! ## Operands read back -/

namespace Operand

variable {table : SymbolTable} {token inner : Text} {operand : Operand}

/-- Operands whose spelling is read as themselves: a number must fit a literal and a name must
stand for itself. -/
def Readable (table : SymbolTable) : Operand → Prop
  | register _ => True
  | immediate value => Literal.minValue ≤ value ∧ value ≤ Literal.maxValue
  | memory (.absolute _) => True
  | memory (.label name) => isIdentifier name = true ∧ address table name = .ok (.label name)
  | memory (.indirect _ offset) => -32768 ≤ offset ∧ offset ≤ 32767
  | label name => isIdentifier name = true ∧ parse table name = .ok (.label name)

theorem value_signed {value : Int} (hmin : Literal.minValue ≤ value)
    (hmax : value ≤ Literal.maxValue) : Operand.value table (signed value) = .ok value := by
  rw [Operand.value, not_isIdentifier_signed, Literal.number_signed hmin hmax]
  rfl

theorem value_decimal {n : Nat} (hn : n ≤ 65535) :
    Operand.value table (decimal n) = .ok (n : Int) := by
  rw [← decimal_natCast]
  apply value_signed
  · simp only [Literal.minValue]
    omega
  · simp only [Literal.maxValue]
    omega

theorem readable_of_absolute {value : Int} {place : Address}
    (habsolute : absolute token value = .ok place) : Readable table (memory place) := by
  obtain ⟨value, -, hplace⟩ := exists_of_bind_eq_ok habsolute
  cases hplace
  trivial

theorem readable_of_address {place : Address} (haddress : address table inner = .ok place) :
    Readable table (memory place) := by
  have hread := haddress
  unfold address at haddress
  split at haddress
  · obtain ⟨magnitude, -, hrest⟩ := exists_of_bind_eq_ok haddress
    obtain ⟨offset, hrange, hplace⟩ := exists_of_bind_eq_ok hrest
    obtain ⟨rfl, hbounds⟩ := Literal.inRange_eq_ok_iff.mp (ok_of_mapError_eq_ok hrange)
    cases hplace
    exact hbounds
  · split at haddress
    · cases haddress
      exact ⟨by decide, by decide⟩
    · split at haddress
      · obtain ⟨value, -, habsolute⟩ := exists_of_bind_eq_ok haddress
        exact readable_of_absolute habsolute
      · split at haddress
        next hname =>
          split at haddress
          · exact readable_of_absolute haddress
          · cases haddress
            exact ⟨hname, hread⟩
        · cases haddress

/-- What has been read can be read back, but for a number that is no literal. -/
theorem readable_of_parse (hparse : parse table token = .ok operand)
    (himmediate : ∀ value, operand = .immediate value →
      Literal.minValue ≤ value ∧ value ≤ Literal.maxValue) :
    operand.Readable table := by
  cases parsesTo_of_parse hparse with
  | register register => trivial
  | value | number | constant => exact himmediate _ rfl
  | memory haddress => exact readable_of_address haddress
  | label hname => exact ⟨hname, hparse⟩

theorem splitOffset?_render (base : Register) : splitOffset? base.render = none := by
  have hall : ∀ index : Fin 16, splitOffset? (Register.general index).render = none := by decide
  cases base with
  | general index => exact hall index
  | stackPointer | basePointer => rfl

theorem isAlphanum_of_mem_render (base : Register) :
    ∀ c ∈ base.render, c.isAlphanum = true := by
  cases base with
  | general index =>
      have hdigits : ∀ c ∈ decimal index.val, c.isAlphanum = true := by
        intro c hc
        simp [Char.isAlphanum, isDigit_of_mem_decimal hc]
      have hletter : Char.isAlphanum 'R' = true := by decide
      simpa [Register.render, hletter] using hdigits
  | stackPointer | basePointer => exact List.all_eq_true.mp rfl

/-- A register name, a sign and a token without blanks, with blanks around the sign or without. -/
theorem splitOffset?_append {name before after : Text} {base : Register} {sign : Char}
    (hname : Register.ofText? name = some base) (halphanum : ∀ c ∈ name, c.isAlphanum = true)
    (hbefore : ∀ c ∈ before, isBlank c = true) (hsign : sign = '+' ∨ sign = '-')
    (hafter : ∀ c ∈ after, isBlank c = true) (htight : IsTight token) :
    splitOffset? (name ++ before ++ sign :: (after ++ token)) =
      if token.any isBlank then none else some (base, sign, token) := by
  have hstop : sign.isAlphanum = false := by rcases hsign with rfl | rfl <;> decide
  have hvisible : isBlank sign = false := by rcases hsign with rfl | rfl <;> decide
  have hgap : ∃ stop rest, before ++ sign :: (after ++ token) = stop :: rest ∧
      stop.isAlphanum = false := by
    cases before with
    | nil => exact ⟨sign, _, rfl, hstop⟩
    | cons c before => exact ⟨c, _, rfl, isAlphanum_of_isBlank (hbefore c (by simp))⟩
  have hfront : trimLeft (before ++ sign :: (after ++ token)) = sign :: (after ++ token) := by
    rw [trimLeft, List.dropWhile_append_of_pos hbefore]
    exact trimLeft_cons hvisible _
  have hback : trimLeft (after ++ token) = token := by
    rw [trimLeft, List.dropWhile_append_of_pos hafter]
    exact htight.trimLeft_eq
  obtain ⟨stop, rest, hrest, hnone⟩ := hgap
  rw [List.append_assoc, splitOffset?, hrest, takeWhile_stop halphanum hnone,
    dropWhile_stop halphanum hnone, ← hrest, hname, hfront]
  cases hany : token.any isBlank with
  | true => simp [hback, hany]
  | false => simp [hback, hsign, htight.ne_nil, hany]

theorem address_offset (base : Register) {sign : Char} (hsign : sign = '+' ∨ sign = '-') {n : Nat}
    {offset : Int} (hn : n ≤ 65535)
    (hoffset : offset = if sign = '-' then -(n : Int) else n) (hmin : -32768 ≤ offset)
    (hmax : offset ≤ 32767) :
    address table (base.render ++ sign :: decimal n) = .ok (.indirect base offset) := by
  have hrange := Literal.inRange_eq_ok_iff.mpr ⟨hoffset, hoffset ▸ hmin, hoffset ▸ hmax⟩
  have htight : IsTight (decimal n) :=
    isTight_of_isRendered (by simp [decimal, Nat.toDigits_ne_nil]) isRendered_of_mem_decimal
  have hany : (decimal n).any isBlank = false := by
    simpa using fun c hc => isBlank_of_isRendered (isRendered_of_mem_decimal c hc)
  have hsplit : splitOffset? (base.render ++ sign :: decimal n) =
      some (base, sign, decimal n) := by
    have hparts : splitOffset? (base.render ++ [] ++ sign :: ([] ++ decimal n)) = _ :=
      splitOffset?_append (Register.ofText?_render base) (isAlphanum_of_mem_render base) nofun hsign
        nofun htight
    simpa [hany] using hparts
  rw [address, hsplit]
  simp only [value_decimal hn, ok_bind, OperandError.inToken, hrange, mapError_ok]

theorem address_absolute (word : Word) :
    address table (hexWord word.toNat) = .ok (.absolute word) := by
  have hname : ∀ rest, Register.ofText? ('0' :: rest) = none := by
    intro rest
    simp [Register.ofText?, upper]
  have hregister : Register.ofText? (hexWord word.toNat) = none := hname _
  have hoffset : splitOffset? (hexWord word.toNat) = none := by
    have hzero : Char.isAlphanum '0' = true := by decide
    simp [splitOffset?, hexWord, hzero, hname]
  have hnumeric : Literal.isNumericStart (hexWord word.toNat) = true := rfl
  have hrange : Literal.inRange word.toNat 0 65535 = .ok (word.toNat : Int) := by
    have hword := word.isLt
    rw [Literal.inRange_eq_ok_iff]
    omega
  rw [address, hoffset]
  simp [hregister, hnumeric, Literal.number_hexWord word.isLt, OperandError.inToken, absolute,
    hrange]

theorem address_renderBody {place : Address} (hreadable : Readable table (memory place)) :
    address table place.renderBody = .ok place := by
  cases place with
  | absolute word => exact address_absolute word
  | label name => exact hreadable.2
  | indirect base offset =>
      obtain ⟨hmin, hmax⟩ := hreadable
      rw [Address.renderBody, Address.renderOffset]
      split
      next hzero =>
        rw [List.append_nil, address, splitOffset?_render, Register.ofText?_render, hzero]
      next hnonzero =>
        split
        next hnegative =>
          apply address_offset base (.inr rfl) (by omega) ?_ hmin hmax
          rw [if_pos rfl]
          omega
        next hpositive =>
          apply address_offset base (.inl rfl) (by omega) ?_ hmin hmax
          rw [if_neg (by decide)]
          omega

theorem isRendered_of_mem_renderBody {place : Address} (hreadable : Readable table (memory place)) :
    ∀ c ∈ place.renderBody, isRendered c = true := by
  cases place with
  | absolute word => exact isRendered_of_mem_hexWord
  | label name => exact isRendered_of_isIdentifier hreadable.1
  | indirect base offset =>
      intro c hc
      rcases List.mem_append.mp hc with hbase | hoffset
      · exact base.isRendered_of_mem c hbase
      · exact Address.isRendered_of_mem_renderOffset offset c hoffset

theorem renderBody_ne_nil {place : Address} (hreadable : Readable table (memory place)) :
    place.renderBody ≠ [] := by
  cases place with
  | absolute word => simp [Address.renderBody, hexWord]
  | label name => exact ne_nil_of_isIdentifier hreadable.1
  | indirect base offset => simp [Address.renderBody, base.render_ne_nil]

/-- The spelling of an operand is read as that operand. -/
theorem Readable.parse_render (hreadable : operand.Readable table) :
    parse table operand.render = .ok operand := by
  cases operand with
  | register r =>
      cases r with
      | general index =>
          have hread : Register.ofText? ('R' :: decimal index.val) = some (.general index) :=
            Register.ofText?_render (.general index)
          simp [parse, render, Register.render, hread]
      | stackPointer | basePointer => rfl
  | immediate value =>
      have htight : IsTight (signed value) :=
        isTight_of_isRendered (signed_ne_nil value) isRendered_of_mem_signed
      simp [parse, render, htight.trim_eq, value_signed hreadable.1 hreadable.2]
  | memory place =>
      have htight : IsTight place.renderBody :=
        isTight_of_isRendered (renderBody_ne_nil hreadable) (isRendered_of_mem_renderBody hreadable)
      simp [parse, render, Address.render, htight.trim_eq, address_renderBody hreadable]
  | label name => exact hreadable.2

/-- A spelling is one word, in brackets or not. -/
theorem render_cases (hreadable : operand.Readable table) :
    (operand.render ≠ [] ∧ ∀ c ∈ operand.render, isRendered c = true) ∨
      ∃ body, operand.render = '[' :: body ++ [']'] ∧ ∀ c ∈ body, isRendered c = true := by
  cases operand with
  | register r => exact .inl ⟨r.render_ne_nil, r.isRendered_of_mem⟩
  | immediate value =>
      have hmark : isRendered '#' = true := by decide
      exact .inl ⟨by simp [render], by simpa [render, hmark] using isRendered_of_mem_signed⟩
  | memory place =>
      exact .inr ⟨place.renderBody, rfl, isRendered_of_mem_renderBody hreadable⟩
  | label name =>
      exact .inl ⟨ne_nil_of_isIdentifier hreadable.1, isRendered_of_isIdentifier hreadable.1⟩

theorem Readable.isWhole_render (hreadable : operand.Readable table) :
    Piece.IsWhole operand.render := by
  rcases render_cases hreadable with ⟨-, hall⟩ | ⟨body, hbody, hall⟩
  · exact Piece.isWhole_of_plain fun c hc => isPlain_of_isRendered (hall c hc)
  · rw [hbody]
    exact Piece.isWhole_bracketed fun c hc => isPlain_of_isRendered (hall c hc)

theorem Readable.isTight_render (hreadable : operand.Readable table) : IsTight operand.render := by
  rcases render_cases hreadable with ⟨hne, hall⟩ | ⟨body, hbody, -⟩
  · exact isTight_of_isRendered hne hall
  · rw [hbody]
    exact ⟨⟨'[', body ++ [']'], rfl, by decide⟩, ⟨'[' :: body, ']', rfl, by decide⟩⟩

end Operand

/-! ## Instructions read back -/

theorem Opcode.ofText?_mnemonic (opcode : Opcode) :
    ofText? opcode.mnemonic.toList = some opcode := by
  have hall : ∀ opcode ∈ all, ofText? opcode.mnemonic.toList = some opcode := by decide
  exact hall opcode opcode.mem_all

theorem Opcode.isBlank_of_mem_mnemonic (opcode : Opcode) :
    ∀ c ∈ opcode.mnemonic.toList, isBlank c = false := by
  have hall : ∀ opcode ∈ all, opcode.mnemonic.toList.all (!isBlank ·) = true := by decide
  simpa using hall opcode opcode.mem_all

namespace Instruction

variable {table : SymbolTable} {instruction : Instruction}

/-- The rendered instruction is its mnemonic and, behind a blank, its operands. -/
theorem read_render (hreadable : ∀ operand ∈ instruction.operands, operand.Readable table)
    (column : Nat) :
    ∃ word rest pieces,
      Piece.splitWord ⟨instruction.render, column⟩ = (word, rest) ∧
        word.text = instruction.opcode.mnemonic.toList ∧
          Layout.operandPieces rest = .ok pieces ∧
            pieces.mapM (fun piece => Operand.parse table piece.text) =
              .ok instruction.operands := by
  have hword := instruction.opcode.isBlank_of_mem_mnemonic
  by_cases hnone : instruction.operands = []
  · refine ⟨⟨instruction.opcode.mnemonic.toList, column⟩, none, [], ?_, rfl, rfl, ?_⟩
    · simpa [render, hnone] using Piece.splitWord_word hword column
    · rw [hnone]
      rfl
  · have hrendered : instruction.operands.map Operand.render ≠ [] := by simpa using hnone
    have hwhole : ∀ text ∈ instruction.operands.map Operand.render, Piece.IsWhole text := by
      simpa using fun operand hoperand => (hreadable operand hoperand).isWhole_render
    have htight : ∀ text ∈ instruction.operands.map Operand.render, IsTight text := by
      simpa using fun operand hoperand => (hreadable operand hoperand).isTight_render
    have hlist : IsTight instruction.renderOperands := Piece.isTight_intercalate hrendered htight
    have hparse : List.Forall₂ (fun text operand => Operand.parse table text = .ok operand)
        (instruction.operands.map Operand.render) instruction.operands := by
      rw [List.forall₂_map_left_iff, List.forall₂_same]
      exact fun operand hoperand => (hreadable operand hoperand).parse_render
    have hsegments := Piece.segments?_spaced hrendered hwhole htight
    obtain ⟨pieces, hpieces, hread⟩ := Piece.exists_splitOperands hsegments hparse
    refine ⟨⟨instruction.opcode.mnemonic.toList, column⟩,
      some ⟨instruction.renderOperands, column + width instruction.opcode.mnemonic.toList + 1⟩,
      pieces, ?_, rfl, Layout.operandPieces_some hpieces, mapM_eq_ok_of_forall₂ hread⟩
    simpa [render, hnone] using Piece.splitWord_append hword hlist column

end Instruction

/-- The disassembly of an assembled program can be read back, as long as no immediate is more
than a literal can be. -/
theorem disassembly_reads_back
    (source : Text) (program : Program) (instruction : Instruction)
    (hassemble : assemble source = .ok program) (hmem : instruction ∈ program.instructions)
    (himmediate : ∀ value, .immediate value ∈ instruction.operands →
      Literal.minValue ≤ value ∧ value ≤ Literal.maxValue) (column : Nat) :
    ∃ word rest pieces,
      Piece.splitWord ⟨(program.disassembleAt instruction).text, column⟩ = (word, rest) ∧
        Opcode.ofText? word.text = some instruction.opcode ∧
          Layout.operandPieces rest = .ok pieces ∧
            pieces.mapM (fun piece => Operand.parse program.symbols piece.text) =
              .ok instruction.operands ∧
            instruction.opcode.check instruction.operands = .ok () := by
  obtain ⟨layout, hlayout, hprogram⟩ := exists_of_bind_eq_ok hassemble
  obtain ⟨entry, index, hinstruction⟩ := Layout.instruction_of_mem hprogram hmem
  obtain ⟨instructions, -, rfl⟩ := Layout.of_program hprogram
  have hreadable : ∀ operand ∈ instruction.operands, operand.Readable layout.symbols := by
    intro operand hoperand
    obtain ⟨token, hparse⟩ := Layout.exists_parse_of_instruction hinstruction hoperand
    apply Operand.readable_of_parse hparse
    rintro value rfl
    exact himmediate value hoperand
  obtain ⟨word, rest, pieces, hsplit, hword, hpieces, hread⟩ :=
    Instruction.read_render hreadable column
  refine ⟨word, rest, pieces, hsplit, ?_, hpieces, hread,
    Layout.accepted_of_instruction hinstruction⟩
  rw [hword]
  exact instruction.opcode.ofText?_mnemonic

theorem disassembly_reads_back_store :
    let source := "STORE [ bp - 0x10 ], -32768".toList
    ∃ program instruction,
      assemble source = .ok program ∧ instruction ∈ program.instructions ∧
        (program.disassembleAt instruction).text = "STORE [BP-16], #-32768".toList ∧
          ∃ word rest pieces,
            Piece.splitWord ⟨"STORE [BP-16], #-32768".toList, 1⟩ = (word, rest) ∧
              Opcode.ofText? word.text = some .store ∧
                Layout.operandPieces rest = .ok pieces ∧
                pieces.mapM (fun piece => Operand.parse program.symbols piece.text) =
                  .ok [.memory (.indirect .basePointer (-16)), .immediate (-32768)] ∧
                Opcode.store.check
                  [.memory (.indirect .basePointer (-16)), .immediate (-32768)] = .ok () := by
  intro source
  let instruction : Instruction :=
    { opcode := .store
      operands := [.memory (.indirect .basePointer (-16)), .immediate (-32768)]
      line := 1, column := 1, source, address := 0 }
  let program : Program :=
    { instructions := #[instruction], symbols := {}, data := #[], textStart := 0, dataStart := 0 }
  have hassemble : assemble source = .ok program := by rfl
  have hmem : instruction ∈ program.instructions := by simp [program]
  have himmediate : ∀ value, .immediate value ∈ instruction.operands →
      Literal.minValue ≤ value ∧ value ≤ Literal.maxValue := by
    simp [instruction, Literal.minValue, Literal.maxValue]
  have hplace : (Operand.memory (.indirect .basePointer (-16))).render = "[BP-16]".toList := by rfl
  have hvalue : (Operand.immediate (-32768)).render = "#-32768".toList := by rfl
  have htext : (program.disassembleAt instruction).text = "STORE [BP-16], #-32768".toList := by
    simp [Program.disassembleAt, Instruction.render, Instruction.renderOperands, instruction,
      hplace, hvalue, Opcode.mnemonic, List.intercalate_cons_cons]
  have hreads :=
    disassembly_reads_back source program instruction hassemble hmem himmediate 1
  rw [htext] at hreads
  exact ⟨program, instruction, hassemble, hmem, htext, hreads⟩

end WordMachine
