import WordMachine.Diagnostic.Basic
import WordMachine.Isa.Directive
import WordMachine.Isa.OperandParser
import WordMachine.Isa.Signature

/-!
# Assembly errors

Everything that can be wrong with a source text, its category and its wording.
A rejection is such an error at a place in the source.  Numbers that the assembler
counts in 32 bits may also break it down.
-/

namespace WordMachine

inductive AssemblyError
  | operand (error : OperandError)
  | signature (error : SignatureError)
  | unknownInstruction (name : Text)
  | unknownDirective (name : Text)
  | duplicateLabel (name : Text) (firstLine : Nat)
  | badLabel (name : Text)
  | directiveArguments (directive : Directive)
  | notCodeLabel (name : Text)
  | dataOutsideSection (directive : Text)
  | instructionOutsideText
  | lateTextOrigin
  | backwardOrigin (cursor target : Nat)
  | badAlignment (value : Int)
  | dataOverflow
  | textOverflow
  deriving DecidableEq

namespace AssemblyError

def code : AssemblyError → String
  | operand (.badLiteral ..) => "asm::literal"
  | operand (.badOperand _) => "asm::operand"
  | operand (.undefinedSymbol _) | notCodeLabel _ => "asm::undefined_symbol"
  | signature (.count ..) => "asm::operand_count"
  | signature (.kind ..) => "asm::operand_kind"
  | unknownInstruction _ => "asm::unknown_instruction"
  | unknownDirective _ => "asm::unknown_directive"
  | duplicateLabel .. => "asm::duplicate_label"
  | badLabel _ => "asm::label"
  | directiveArguments _ | badAlignment _ => "asm::directive"
  | dataOutsideSection _ | instructionOutsideText | lateTextOrigin | backwardOrigin .. =>
      "asm::misplaced"
  | dataOverflow | textOverflow => "asm::data_overflow"

def quoted (name : Text) : String := "`" ++ String.ofList name ++ "`"

def message : AssemblyError → String
  | operand error => error.message
  | signature error => error.message
  | unknownInstruction name => "unknown instruction " ++ quoted name
  | unknownDirective name => "unknown directive " ++ quoted name
  | duplicateLabel name firstLine =>
      "duplicate label " ++ quoted name ++ " (first defined on line " ++ toString firstLine ++ ")"
  | badLabel name => "invalid label name " ++ quoted name
  | directiveArguments directive =>
      "`" ++ directive.name ++ "` expects " ++ directive.arguments
  | notCodeLabel name =>
      quoted name ++ " is not a label inside .TEXT and cannot be a jump target"
  | dataOutsideSection directive => quoted directive ++ " is only allowed inside .DATA"
  | instructionOutsideText => "instructions are only allowed inside .TEXT"
  | lateTextOrigin => "`.ORG` inside .TEXT must come before the first instruction"
  | backwardOrigin cursor target =>
      "`.ORG " ++ String.ofList (Text.hexWord target) ++
        "` would move the data cursor backwards from " ++ String.ofList (Text.hexWord cursor)
  | badAlignment value =>
      "`.ALIGN` requires a positive power of two, found " ++ String.ofList (Text.signed value)
  | dataOverflow => "data section overflows the 64KiB address space"
  | textOverflow => "too many instructions for a 16-bit instruction index"

end AssemblyError

/-- An assembly error at a line and a byte column, both counted from one. -/
structure Rejection where
  cause : AssemblyError
  line : Nat
  column : Nat
  suggestion : Option Text := none
  deriving DecidableEq

def Rejection.diagnostic (rejection : Rejection) : Diagnostic :=
  { line := rejection.line
    column := rejection.column
    code := rejection.cause.code
    message := rejection.cause.message
    suggestion := rejection.suggestion }

/-- Why a source text is not assembled. -/
inductive AssemblyFailure
  | rejected (rejection : Rejection)
  /-- The assembler gave up. -/
  | breakdown (message : String)
  deriving DecidableEq

/-- A number does not fit the 32 bits that it is counted in. -/
def AssemblyFailure.overflow : AssemblyFailure := .breakdown "attempt to add with overflow"

end WordMachine
