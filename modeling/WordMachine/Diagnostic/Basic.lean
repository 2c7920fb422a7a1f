import WordMachine.Text.Blank

/-!
# Diagnostics

The one form in which every failure reaches a reader: a place in the source, a
category and a message.  Line zero stands for a failure that is tied to no
source.
-/

namespace WordMachine

structure Diagnostic where
  line : Nat
  /-- The byte column, counted from one. -/
  column : Nat
  /-- The category, such as `asm::literal`. -/
  code : String
  message : String
  suggestion : Option Text := none
  deriving DecidableEq

namespace Diagnostic

/-- A failure without a place in the source. -/
def detached (code message : String) : Diagnostic :=
  { line := 0, column := 0, code, message }

def didYouMean (suggestion : Text) : String :=
  "did you mean `" ++ String.ofList suggestion ++ "`?"

def display (diagnostic : Diagnostic) : String :=
  (if 0 < diagnostic.line then
    "line " ++ toString diagnostic.line ++ ", column " ++ toString diagnostic.column ++ ": "
  else "") ++
    diagnostic.message ++
    match diagnostic.suggestion with
    | some suggestion => " (" ++ didYouMean suggestion ++ ")"
    | none => ""

/-- Advice for a category. -/
def adviceFor (code : String) : String :=
  match code with
  | "asm::literal" => "literals may be decimal, 0x/$ hex, 0b/% binary, or 'c' characters"
  | "asm::duplicate_label" => "labels and constants may only be defined once per file"
  | "asm::operand_count" | "asm::operand_kind" => "check the operands for this instruction"
  | "asm::undefined_symbol" => "define the label with `name:` or the constant with `.EQU`"
  | "asm::misplaced" => "byte directives belong in .DATA, instructions in .TEXT"
  | "asm::data_overflow" => "the data section must fit inside 64KiB"
  | "run::division_by_zero" => "check the divisor before dividing"
  | "run::bounds" => "word accesses must leave room for 2 bytes below 0x10000"
  | "run::stack" => "every POP or RET needs a matching PUSH or CALL"
  | _ => "see the instruction set reference"

/-- A suggestion where there is one, and otherwise the advice for the category. -/
def help (diagnostic : Diagnostic) : String :=
  match diagnostic.suggestion with
  | some suggestion => didYouMean suggestion
  | none => adviceFor diagnostic.code

end Diagnostic
end WordMachine
