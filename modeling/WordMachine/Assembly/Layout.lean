import WordMachine.Assembly.Error
import WordMachine.Isa.OperandParser
import WordMachine.Source.Line
import WordMachine.Text.Suggestion

/-!
# Layout

The first reading of a source text places everything: labels and constants get
values, directives emit data bytes, and each instruction gets its number.
Operands are left as text, since they may name labels that come later.
`Layout.ofText` is the layout of a whole source, or its first fault.
-/

namespace WordMachine

/-- The number of addresses, and of instruction numbers. -/
def addressSpace : Nat := 65536

inductive Section
  | data | text
  deriving DecidableEq

/-- An instruction whose operands have not been read yet. -/
structure Entry where
  opcode : Opcode
  line : Nat
  column : Nat
  /-- The statement as written. -/
  source : Text
  operands : Option Piece
  deriving DecidableEq

/-- What has been placed so far.  A source starts in the text section. -/
structure Layout where
  symbols : SymbolTable := {}
  current : Section := .text
  data : Array UInt8 := #[]
  /-- The address of the first data byte. -/
  dataStart : Nat := 0
  /-- The number of the first instruction. -/
  textStart : Nat := 0
  entries : Array Entry := #[]
  deriving DecidableEq

namespace Layout

open Text

/-- The address of the next data byte.  Of the number of data bytes, 32 bits are kept. -/
def dataCursor (layout : Layout) : Nat := layout.dataStart + layout.data.size % 4294967296

/-- The data cursor, which must fit 32 bits itself. -/
def checkedCursor (layout : Layout) : Except AssemblyFailure Nat :=
  if layout.dataCursor < 4294967296 then .ok layout.dataCursor else .error .overflow

/-- The number of the next instruction. -/
def textCursor (layout : Layout) : Nat := layout.textStart + layout.entries.size

def reject {α : Type} (cause : AssemblyError) (line column : Nat) : Except AssemblyFailure α :=
  .error (.rejected { cause, line, column })

/-- Whether a name may be defined: an identifier that names no register. -/
def isDefinable (name : Text) : Bool := isIdentifier name && (Register.ofText? name).isNone

def define (layout : Layout) (name : Piece) (line : Nat) (value : Int) (kind : SymbolKind) :
    Except AssemblyFailure Layout :=
  match layout.symbols.insert { name := name.text, value, kind, line } with
  | .ok symbols => .ok { layout with symbols }
  | .error first => reject (.duplicateLabel name.text first.line) line name.column

/-- Bind a label to the cursor of the current section. -/
def placeLabel (layout : Layout) (label : Piece) (line : Nat) : Except AssemblyFailure Layout :=
  if !isDefinable label.text then reject (.badLabel label.text) line label.column
  else
    match layout.current with
    | .data => do
        let cursor ← layout.checkedCursor
        if addressSpace ≤ cursor then reject .dataOverflow line label.column
        else layout.define label line cursor .data
    | .text => layout.define label line layout.textCursor .code

def placeInstruction (layout : Layout) (statement : Piece) (line : Nat) :
    Except AssemblyFailure Layout :=
  let (word, operands) := statement.splitWord
  match Opcode.ofText? word.text with
  | none =>
      .error
        (.rejected
          { cause := .unknownInstruction word.text, line, column := word.column
            suggestion := suggest word.text Opcode.vocabulary })
  | some opcode =>
      if layout.current ≠ .text then reject .instructionOutsideText line word.column
      else if addressSpace ≤ layout.textCursor then reject .textOverflow line word.column
      else
        let entry : Entry :=
          { opcode, line, column := word.column, source := statement.text, operands }
        .ok { layout with entries := layout.entries.push entry }

/-- A number or the value of a symbol defined above, within bounds. -/
def argument (layout : Layout) (line : Nat) (min max : Int) (piece : Piece) :
    Except AssemblyFailure Int :=
  let result := do
    let value ← Operand.value layout.symbols piece.text
    OperandError.inToken piece.text (Literal.inRange value min max)
  match result with
  | .ok value => .ok value
  | .error error => reject (.operand error) line piece.column

/-- The bytes of a quoted string argument. -/
def stringArgument (line : Nat) (piece : Piece) : Except AssemblyFailure (List UInt8) :=
  match Literal.bytes piece.text with
  | .ok bytes => .ok bytes
  | .error error => reject (.operand (.badLiteral piece.text error)) line piece.column

def emit (layout : Layout) (bytes : List UInt8) : Layout :=
  { layout with data := layout.data ++ bytes }

/-- Emit zero bytes. -/
def pad (layout : Layout) (count : Nat) : Layout :=
  { layout with data := layout.data ++ Array.replicate count 0 }

/-- Emit what a function makes of each of one or more arguments. -/
def emitEach (layout : Layout) (wrongArguments : AssemblyFailure)
    (bytes : Piece → Except AssemblyFailure (List UInt8)) (arguments : List Piece) :
    Except AssemblyFailure Layout :=
  if arguments.isEmpty then .error wrongArguments
  else do
    let parts ← arguments.mapM bytes
    .ok (layout.emit parts.flatten)

def byteOf (value : Int) : UInt8 := ⟨BitVec.ofInt 8 value⟩

/-- The low byte of a word and then its high byte. -/
def wordBytes (value : Int) : List UInt8 := [byteOf value, byteOf (value / 256)]

/--
Move the cursor of the current section.  An empty section moves as a whole,
together with the labels that stand at its start.
-/
def origin (layout : Layout) (target : Nat) (line column : Nat) : Except AssemblyFailure Layout :=
  match layout.current with
  | .text =>
      if !layout.entries.isEmpty then reject .lateTextOrigin line column
      else
        .ok
          { layout with
            symbols := layout.symbols.rebase .code layout.textStart target
            textStart := target }
  | .data =>
      if layout.data.isEmpty then
        .ok
          { layout with
            symbols := layout.symbols.rebase .data layout.dataStart target
            dataStart := target }
      else do
        let cursor ← layout.checkedCursor
        if target < cursor then reject (.backwardOrigin cursor target) line column
        else .ok (layout.pad (target - cursor))

/-- The name and the value of a constant, written with a comma or a blank between. -/
def nameAndValue? : List Piece → Option (Piece × Piece)
  | [name, value] => some (name, value)
  | [both] =>
      match both.splitWord with
      | (name, some value) => some (name, value)
      | (_, none) => none
  | _ => none

def isPowerOfTwo (value : Int) : Bool := 0 < value && 1 <<< value.toNat.log2 == value.toNat

/-- Carry out a directive with its arguments. -/
def apply (layout : Layout) (directive : Directive) (line column : Nat)
    (arguments : List Piece) : Except AssemblyFailure Layout :=
  let wrongArguments : AssemblyFailure :=
    .rejected { cause := .directiveArguments directive, line, column }
  match directive with
  | .data =>
      if arguments.isEmpty then .ok { layout with current := .data }
      else .error wrongArguments
  | .text =>
      if arguments.isEmpty then .ok { layout with current := .text }
      else .error wrongArguments
  | .org =>
      match arguments with
      | [piece] => do
          let target ← layout.argument line 0 65535 piece
          layout.origin target.toNat line column
      | _ => .error wrongArguments
  | .equ =>
      match nameAndValue? arguments with
      | none => .error wrongArguments
      | some (name, value) =>
          if !isDefinable name.text then reject (.badLabel name.text) line name.column
          else do
            let value ← layout.argument line Literal.minValue Literal.maxValue value
            layout.define name line value .constant
  | .byte =>
      layout.emitEach wrongArguments
        (fun piece => (fun value => [byteOf value]) <$> layout.argument line (-128) 255 piece)
        arguments
  | .word =>
      layout.emitEach wrongArguments
        (fun piece =>
          wordBytes <$> layout.argument line Literal.minValue Literal.maxValue piece)
        arguments
  | .ascii => layout.emitEach wrongArguments (stringArgument line) arguments
  | .asciz =>
      layout.emitEach wrongArguments
        (fun piece => (· ++ [0]) <$> stringArgument line piece) arguments
  | .space =>
      match arguments with
      | [piece] => do
          let count ← layout.argument line 0 addressSpace piece
          .ok (layout.pad count.toNat)
      | _ => .error wrongArguments
  | .align =>
      match arguments with
      | [piece] => do
          let value ← layout.argument line Literal.minValue Literal.maxValue piece
          if isPowerOfTwo value then do
            let align := value.toNat
            let cursor ← layout.checkedCursor
            .ok (layout.pad ((align - cursor % align) % align))
          else reject (.badAlignment value) line piece.column
      | _ => .error wrongArguments

/-- The operands that follow a word, if anything does. -/
def operandPieces (rest : Option Piece) : Except AssemblyFailure (List Piece) :=
  match rest with
  | none => .ok []
  | some rest =>
      match rest.splitOperands with
      | some pieces => .ok pieces
      | none => .error .overflow

def placeDirective (layout : Layout) (statement : Piece) (line : Nat) :
    Except AssemblyFailure Layout :=
  let (word, rest) := statement.splitWord
  match Directive.ofText? word.text with
  | none =>
      .error
        (.rejected
          { cause := .unknownDirective word.text, line, column := word.column
            suggestion := suggest word.text Directive.vocabulary })
  | some directive =>
      if directive.emitsBytes ∧ layout.current ≠ .data then
        reject (.dataOutsideSection (upper word.text)) line word.column
      else do
        let arguments ← operandPieces rest
        let layout ← layout.apply directive line word.column arguments
        let cursor ← layout.checkedCursor
        if addressSpace < cursor then reject .dataOverflow line word.column
        else .ok layout

def placeStatement (layout : Layout) (statement : Piece) (line : Nat) :
    Except AssemblyFailure Layout :=
  if statement.text.head? = some '.' then layout.placeDirective statement line
  else layout.placeInstruction statement line

/-- Place one line: its label, and then its statement. -/
def place (layout : Layout) (line : SourceLine) : Except AssemblyFailure Layout := do
  let layout ← match line.label with
    | some label => layout.placeLabel label line.number
    | none => .ok layout
  match line.statement with
  | some statement => layout.placeStatement statement line.number
  | none => .ok layout

def ofLines (lines : List SourceLine) : Except AssemblyFailure Layout := lines.foldlM place {}

def ofText (source : Text) : Except AssemblyFailure Layout := ofLines (SourceLine.ofText source)

end Layout
end WordMachine
