import WordMachine.Assembly.Error
import WordMachine.Isa.OperandParser
import WordMachine.Program
import WordMachine.Proofs.Outcomes
import WordMachine.Proofs.RecasedTexts
import Mathlib.Data.Option.Basic

/-!
# Operands of recased tokens

Symbols and operands keep the spelling of names.  Folded, with every name in
capitals, they are what a program is up to that spelling.  Tables that are equal
when folded give every name the same symbol, so recased tokens are read as operands
that are equal when folded, or are refused with errors of the same code.
-/

namespace WordMachine

open Text

/-! ## Names in capitals -/

def Symbol.folded (symbol : Symbol) : Symbol := { symbol with name := upper symbol.name }

def SymbolTable.folded (table : SymbolTable) : SymbolTable := ⟨table.symbols.map Symbol.folded⟩

def Address.folded : Address → Address
  | .label name => .label (upper name)
  | address => address

def Operand.folded : Operand → Operand
  | .memory address => .memory address.folded
  | .label name => .label (upper name)
  | operand => operand

namespace SymbolTable

variable {table table' : SymbolTable} {name name' : Text}

theorem get?_folded (table : SymbolTable) (name : Text) :
    table.folded.get? (upper name) = (table.get? name).map Symbol.folded := by
  unfold get? folded
  rw [List.find?_map]
  congr 2
  funext symbol
  simp [Symbol.folded, sameWord, upper_upper]

/-- A name has the same symbol, up to spelling, in tables that are the same up to spelling. -/
theorem rel_get? (htable : table.folded = table'.folded) (hname : upper name = upper name') :
    Option.Rel (fun symbol symbol' => symbol.folded = symbol'.folded)
      (table.get? name) (table'.get? name') := by
  have hget : (table.get? name).map Symbol.folded = (table'.get? name').map Symbol.folded := by
    rw [← get?_folded, htable, hname, get?_folded]
  cases hfound : table.get? name with
  | none =>
      rw [hfound, Option.map_none, eq_comm, Option.map_eq_none_iff] at hget
      rw [hget]
      exact .none
  | some symbol =>
      rw [hfound, Option.map_some, eq_comm, Option.map_eq_some_iff] at hget
      obtain ⟨symbol', hfound', hsame⟩ := hget
      rw [hfound']
      exact .some hsame.symm

theorem value?_eq_of_folded_eq (htable : table.folded = table'.folded)
    (hname : upper name = upper name') : table.value? name = table'.value? name' := by
  have hget := rel_get? htable hname
  unfold value?
  generalize table.get? name = found at *
  generalize table'.get? name' = found' at *
  cases hget with
  | none => rfl
  | some hsame => exact congrArg (fun symbol => some symbol.value) hsame

theorem constant?_eq_of_folded_eq (htable : table.folded = table'.folded)
    (hname : upper name = upper name') : table.constant? name = table'.constant? name' := by
  have hget := rel_get? htable hname
  unfold constant?
  generalize table.get? name = found at *
  generalize table'.get? name' = found' at *
  cases hget with
  | none => rfl
  | @some symbol symbol' hsame =>
      have hkind : symbol.kind = symbol'.kind := congrArg (·.kind) hsame
      have hvalue : symbol.value = symbol'.value := congrArg (·.value) hsame
      rw [Option.filter_some, Option.filter_some, hkind]
      split
      · exact congrArg some hvalue
      · rfl

end SymbolTable

/-! ## Operands -/

/-- Operand errors that a source reports under the same code. -/
def OperandError.SameCode (error error' : OperandError) : Prop :=
  (AssemblyError.operand error).code = (AssemblyError.operand error').code

namespace Operand

open OperandError

variable {table table' : SymbolTable} {token token' : Text}

theorem alike_inToken {α : Type} (token token' : Text) (result : Except LiteralError α) :
    Alike SameCode Eq (inToken token result) (inToken token' result) := by
  cases result with
  | ok value => exact .ok rfl
  | error error => exact .error rfl

theorem alike_value (htable : table.folded = table'.folded) (h : Recased token token') :
    Alike SameCode Eq (value table token) (value table' token') := by
  unfold value
  rw [h.isIdentifier_eq, SymbolTable.value?_eq_of_folded_eq htable h.upper_eq,
    Literal.recased_number h]
  split
  · split
    · exact .ok rfl
    · exact .error rfl
  · exact alike_inToken token token' _

theorem alike_absolute (token token' : Text) (value : Int) :
    Alike SameCode Eq (absolute token value) (absolute token' value) :=
  (alike_inToken token token' _).bind fun _ _ hvalue => by
    rw [hvalue]
    exact .ok rfl

theorem recased_splitOffset? (h : Recased token token') :
    Option.Rel (fun offset offset' =>
        offset.1 = offset'.1 ∧ offset.2.1 = offset'.2.1 ∧ Recased offset.2.2 offset'.2.2)
      (splitOffset? token) (splitOffset? token') := by
  have hsigns : ∀ c d : Char, c.toUpper = d.toUpper → (c = '+' ∨ c = '-') → c = d := by
    rintro c d hsame (rfl | rfl)
    · exact eq_of_toUpper_eq hsame (by decide)
    · exact eq_of_toUpper_eq hsame (by decide)
  unfold splitOffset?
  rw [(h.takeWhile blind_isAlphanum).register_eq]
  cases Register.ofText? (token'.takeWhile Char.isAlphanum) with
  | none => exact .none
  | some base =>
      rcases (h.dropWhile blind_isAlphanum).trimLeft.nil_or_cons with
        ⟨hafter, hafter'⟩ | ⟨sign, sign', rest, rest', hafter, hafter', hsign, hrest⟩
      · rw [hafter, hafter']
        exact .none
      · rw [hafter, hafter']
        have hoffset := hrest.trimLeft
        have hblank : (trimLeft rest).any isBlank = (trimLeft rest').any isBlank := by
          rw [← any_upper blind_isBlank, hoffset.upper_eq, any_upper blind_isBlank]
        have hplus : sign = '+' ↔ sign' = '+' := eq_mark_iff hsign (by decide)
        have hminus : sign = '-' ↔ sign' = '-' := eq_mark_iff hsign (by decide)
        dsimp only
        simp only [hplus, hminus, hoffset.isEmpty_eq, hblank]
        split
        next hsigned =>
          have hsigned' : sign = '+' ∨ sign = '-' := by
            rw [hplus, hminus]
            exact hsigned.1
          exact .some ⟨rfl, hsigns sign sign' hsign hsigned', hoffset⟩
        · exact .none

theorem alike_address (htable : table.folded = table'.folded) (h : Recased token token') :
    Alike SameCode (fun address address' => address.folded = address'.folded)
      (address table token) (address table' token') := by
  have hoffset := recased_splitOffset? h
  unfold address
  generalize splitOffset? token = split at *
  generalize splitOffset? token' = split' at *
  cases hoffset with
  | some hparts =>
      obtain ⟨hbase, hsign, hrest⟩ := hparts
      dsimp only
      rw [hbase, hsign]
      refine (alike_value htable hrest).bind fun magnitude magnitude' hmagnitude => ?_
      rw [hmagnitude]
      refine (alike_inToken _ _ _).bind fun offset offset' heq => ?_
      rw [heq]
      exact .ok rfl
  | none =>
      dsimp only
      rw [h.register_eq, h.isIdentifier_eq, Literal.recased_isNumericStart h,
        SymbolTable.constant?_eq_of_folded_eq htable h.upper_eq, Literal.recased_number h]
      have habsolute : ∀ value,
          Alike SameCode (fun address address' => address.folded = address'.folded)
            (absolute token value) (absolute token' value) := fun value =>
        (alike_absolute token token' value).imp fun _ _ hsame => congrArg Address.folded hsame
      cases Register.ofText? token' with
      | some base => exact .ok rfl
      | none =>
          cases Literal.isNumericStart token' with
          | true =>
              refine (alike_inToken _ _ _).bind fun number number' hnumber => ?_
              rw [hnumber]
              exact habsolute number'
          | false =>
              cases isIdentifier token' with
              | false => exact .error rfl
              | true =>
                  cases table'.constant? token' with
                  | some value => exact habsolute value
                  | none => exact .ok (congrArg Address.label h.upper_eq)

/-- What stands for itself is a register, a number or a name. -/
theorem parse_of_head?_ne (hhash : token.head? ≠ some '#') (hbracket : token.head? ≠ some '[') :
    parse table token =
      match Register.ofText? token with
      | some r => .ok (.register r)
      | none =>
          if Literal.isNumericStart token then
            immediate <$> inToken token (Literal.number token)
          else if isIdentifier token then
            match table.constant? token with
            | some value => .ok (.immediate value)
            | none => .ok (.label token)
          else .error (.badOperand token) := by
  unfold parse
  split
  · exact absurd rfl hhash
  · exact absurd rfl hbracket
  · rfl

theorem alike_parse_of_head?_ne (htable : table.folded = table'.folded) (h : Recased token token')
    (hhash : token.head? ≠ some '#') (hbracket : token.head? ≠ some '[') :
    Alike SameCode (fun operand operand' => operand.folded = operand'.folded)
      (parse table token) (parse table' token') := by
  have hhash' : token'.head? ≠ some '#' := by rwa [ne_eq, ← h.head?_eq_mark_iff (by decide)]
  have hbracket' : token'.head? ≠ some '[' := by rwa [ne_eq, ← h.head?_eq_mark_iff (by decide)]
  rw [parse_of_head?_ne hhash hbracket, parse_of_head?_ne hhash' hbracket', h.register_eq,
    h.isIdentifier_eq, Literal.recased_isNumericStart h,
    SymbolTable.constant?_eq_of_folded_eq htable h.upper_eq, Literal.recased_number h]
  cases Register.ofText? token' with
  | some register => exact .ok rfl
  | none =>
      cases Literal.isNumericStart token' with
      | true => exact (alike_inToken _ _ _).map fun _ _ hsame => by rw [hsame]
      | false =>
          cases isIdentifier token' with
          | false => exact .error rfl
          | true =>
              cases table'.constant? token' with
              | some value => exact .ok rfl
              | none => exact .ok (congrArg Operand.label h.upper_eq)

theorem alike_parse (htable : table.folded = table'.folded) (h : Recased token token') :
    Alike SameCode (fun operand operand' => operand.folded = operand'.folded)
      (parse table token) (parse table' token') := by
  rcases h.nil_or_cons with ⟨rfl, rfl⟩ | ⟨c, d, rest, rest', rfl, rfl, hhead, hrest⟩
  · exact .error rfl
  · by_cases hhash : c = '#'
    · obtain rfl : d = '#' := (eq_mark_iff hhead (by decide)).mp hhash
      subst hhash
      exact (alike_value htable hrest.trim).map fun _ _ hsame => by rw [hsame]
    · by_cases hbracket : c = '['
      · obtain rfl : d = '[' := (eq_mark_iff hhead (by decide)).mp hbracket
        subst hbracket
        have hclose : rest.getLast? = some ']' ↔ rest'.getLast? = some ']' :=
          hrest.getLast?_eq_mark_iff (by decide)
        have hparse : ∀ table rest, parse table ('[' :: rest) =
            if rest.getLast? = some ']' then memory <$> address table (trim rest.dropLast)
            else .error (.badOperand ('[' :: rest)) := fun _ _ => rfl
        rw [hparse, hparse]
        by_cases hclosed : rest.getLast? = some ']'
        · rw [if_pos hclosed, if_pos (hclose.mp hclosed)]
          exact (alike_address htable hrest.dropLast.trim).map fun _ _ hsame =>
            congrArg Operand.memory hsame
        · rw [if_neg hclosed, if_neg fun h => hclosed (hclose.mpr h)]
          exact .error rfl
      · exact alike_parse_of_head?_ne htable h (by simpa using hhash) (by simpa using hbracket)

end Operand

end WordMachine
