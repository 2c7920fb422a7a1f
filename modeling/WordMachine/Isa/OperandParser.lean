import WordMachine.Isa.Operand
import WordMachine.Literal
import WordMachine.Symbol

/-!
# Reading operands

An operand token is, in this order of precedence, a value after `#`, an address
in brackets, a register, a number or a name.  Constants are replaced by their
value; labels stay names until the instruction runs.
-/

namespace WordMachine

inductive OperandError
  | undefinedSymbol (name : Text)
  | badLiteral (token : Text) (error : LiteralError)
  | badOperand (token : Text)
  deriving DecidableEq

namespace OperandError

def message : OperandError → String
  | undefinedSymbol name => "undefined label or constant `" ++ String.ofList name ++ "`"
  | badLiteral token error =>
      "invalid literal `" ++ String.ofList token ++ "`: " ++ error.message
  | badOperand token => "invalid operand `" ++ String.ofList token ++ "`"

/-- Tell which token a literal error is about. -/
def inToken {α : Type} (token : Text) (result : Except LiteralError α) : Except OperandError α :=
  result.mapError (badLiteral token)

end OperandError

namespace Operand

open Text OperandError

/-- A number, or the value of any symbol. -/
def value (table : SymbolTable) (token : Text) : Except OperandError Int :=
  if isIdentifier token then
    match table.value? token with
    | some value => .ok value
    | none => .error (.undefinedSymbol token)
  else inToken token (Literal.number token)

def absolute (token : Text) (value : Int) : Except OperandError Address := do
  let address ← inToken token (Literal.inRange value 0 65535)
  .ok (.absolute (BitVec.ofInt 16 address))

/-- A register name, a sign and an offset, with blanks allowed around the sign. -/
def splitOffset? (inner : Text) : Option (Register × Char × Text) :=
  match Register.ofText? (inner.takeWhile Char.isAlphanum),
      trimLeft (inner.dropWhile Char.isAlphanum) with
  | some base, sign :: rest =>
      let offset := trimLeft rest
      if (sign = '+' ∨ sign = '-') ∧ !offset.isEmpty ∧ !offset.any isBlank then
        some (base, sign, offset)
      else none
  | _, _ => none

/-- The contents of brackets. -/
def address (table : SymbolTable) (inner : Text) : Except OperandError Address :=
  match splitOffset? inner with
  | some (base, sign, token) => do
      let magnitude ← value table token
      let offset ← inToken token
        (Literal.inRange (if sign = '-' then -magnitude else magnitude) (-32768) 32767)
      .ok (.indirect base offset)
  | none =>
      match Register.ofText? inner with
      | some base => .ok (.indirect base 0)
      | none =>
          if Literal.isNumericStart inner then do
            absolute inner (← inToken inner (Literal.number inner))
          else if isIdentifier inner then
            match table.constant? inner with
            | some value => absolute inner value
            | none => .ok (.label inner)
          else .error (.badOperand inner)

def parse (table : SymbolTable) (token : Text) : Except OperandError Operand :=
  match token with
  | '#' :: rest => immediate <$> value table (trim rest)
  | '[' :: rest =>
      if rest.getLast? = some ']' then memory <$> address table (trim rest.dropLast)
      else .error (.badOperand token)
  | _ =>
      match Register.ofText? token with
      | some r => .ok (.register r)
      | none =>
          if Literal.isNumericStart token then
            immediate <$> inToken token (Literal.number token)
          else if isIdentifier token then
            match table.constant? token with
            | some value => .ok (.immediate value)
            | none => .ok (.label token)
          else .error (.badOperand token)

end Operand
end WordMachine
