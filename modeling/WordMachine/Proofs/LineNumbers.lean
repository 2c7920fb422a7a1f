import WordMachine.Assembly.Resolution
import WordMachine.Proofs.Outcomes

/-!
# Line numbers are only passed on

Assembly reads no line number.  It puts the number of a line into the symbols and
instructions that the line defines and into the rejections that it causes, so
lines that are numbered in another way assemble to the same program, or fail in
the same way, with every line number replaced.
-/

namespace WordMachine

/-! ## Lines renumbered -/

def Symbol.renumber (f : Nat → Nat) (symbol : Symbol) : Symbol :=
  { symbol with line := f symbol.line }

def SymbolTable.renumber (f : Nat → Nat) (table : SymbolTable) : SymbolTable :=
  ⟨table.symbols.map (·.renumber f)⟩

def Instruction.renumber (f : Nat → Nat) (instruction : Instruction) : Instruction :=
  { instruction with line := f instruction.line }

def Program.renumber (f : Nat → Nat) (program : Program) : Program :=
  { program with
    instructions := program.instructions.map (·.renumber f)
    symbols := program.symbols.renumber f }

/-- Only a label that is defined twice mentions a line. -/
def AssemblyError.renumber (f : Nat → Nat) : AssemblyError → AssemblyError
  | duplicateLabel name firstLine => duplicateLabel name (f firstLine)
  | error => error

def Rejection.renumber (f : Nat → Nat) (rejection : Rejection) : Rejection :=
  { rejection with cause := rejection.cause.renumber f, line := f rejection.line }

def AssemblyFailure.renumber (f : Nat → Nat) : AssemblyFailure → AssemblyFailure
  | rejected rejection => rejected (rejection.renumber f)
  | breakdown message => breakdown message

def SourceLine.renumber (f : Nat → Nat) (line : SourceLine) : SourceLine :=
  { line with number := f line.number }

def Entry.renumber (f : Nat → Nat) (entry : Entry) : Entry :=
  { entry with line := f entry.line }

def Layout.renumber (f : Nat → Nat) (layout : Layout) : Layout :=
  { layout with
    symbols := layout.symbols.renumber f
    entries := layout.entries.map (·.renumber f) }

variable {f : Nat → Nat}

theorem AssemblyError.code_renumber (error : AssemblyError) :
    (error.renumber f).code = error.code := by
  cases error <;> rfl

/-! ## Outcomes renumbered -/

/-- The outcome with its line numbers replaced. -/
def renumbered {α β : Type} (f : Nat → Nat) (g : α → β) :
    Except AssemblyFailure α → Except AssemblyFailure β
  | .ok value => .ok (g value)
  | .error failure => .error (failure.renumber f)

section Outcomes

variable {α β γ δ : Type} {g : α → β} {k : γ → δ}

@[simp] theorem renumbered_ok (g : α → β) (value : α) :
    renumbered f g (.ok value) = .ok (g value) := rfl

theorem renumbered_bind {first : Except AssemblyFailure α} {rest : α → Except AssemblyFailure γ}
    {rest' : β → Except AssemblyFailure δ}
    (hrest : ∀ value, rest' (g value) = renumbered f k (rest value)) :
    renumbered f g first >>= rest' = renumbered f k (first >>= rest) := by
  cases first with
  | error failure => rfl
  | ok value => exact hrest value

theorem renumbered_map (h : α → β) (result : Except AssemblyFailure α) :
    h <$> renumbered f id result = renumbered f id (h <$> result) := by
  cases result with
  | ok value => rfl
  | error failure => rfl

theorem renumbered_mapM {read : α → Except AssemblyFailure γ}
    {read' : β → Except AssemblyFailure δ}
    (hread : ∀ item, read' (g item) = renumbered f k (read item)) (items : List α) :
    (items.map g).mapM read' = renumbered f (List.map k) (items.mapM read) := by
  induction items with
  | nil => rfl
  | cons item items ih =>
      rw [List.map_cons, List.mapM_cons, List.mapM_cons, hread, ih]
      apply renumbered_bind
      intro result
      apply renumbered_bind
      intro results
      rfl

theorem renumbered_forM {check : α → Except AssemblyFailure Unit}
    {check' : β → Except AssemblyFailure Unit}
    (hcheck : ∀ item, check' (g item) = renumbered f id (check item)) (items : List α) :
    (items.map g).forM check' = renumbered f id (items.forM check) := by
  induction items with
  | nil => rfl
  | cons item items ih =>
      rw [List.map_cons, List.forM, List.forM, hcheck]
      apply renumbered_bind
      intro _
      exact ih

theorem renumbered_foldlM {step : γ → α → Except AssemblyFailure γ}
    {step' : δ → β → Except AssemblyFailure δ}
    (hstep : ∀ state item, step' (k state) (g item) = renumbered f k (step state item))
    (items : List α) (state : γ) :
    (items.map g).foldlM step' (k state) = renumbered f k (items.foldlM step state) := by
  induction items generalizing state with
  | nil => rfl
  | cons item items ih =>
      rw [List.map_cons, List.foldlM_cons, List.foldlM_cons, hstep]
      apply renumbered_bind
      exact ih

end Outcomes

/-! ## Symbols -/

namespace SymbolTable

theorem get?_renumber (table : SymbolTable) (name : Text) :
    (table.renumber f).get? name = (table.get? name).map (·.renumber f) := by
  unfold get? renumber
  rw [List.find?_map]
  rfl

theorem value?_renumber (table : SymbolTable) (name : Text) :
    (table.renumber f).value? name = table.value? name := by
  rw [value?, get?_renumber, Option.map_map]
  rfl

theorem constant?_renumber (table : SymbolTable) (name : Text) :
    (table.renumber f).constant? name = table.constant? name := by
  rw [constant?, get?_renumber, constant?]
  cases hsymbol : table.get? name with
  | none => rfl
  | some symbol =>
      cases hkind : symbol.kind <;> simp [Symbol.renumber, Option.filter, hkind]

theorem rebase_renumber (table : SymbolTable) (kind : SymbolKind) (source target : Int) :
    (table.renumber f).rebase kind source target =
      (table.rebase kind source target).renumber f := by
  unfold rebase renumber
  rw [List.map_map, List.map_map]
  congr 2
  funext symbol
  dsimp only [Function.comp, Symbol.renumber]
  split
  · rfl
  · rfl

theorem insert_renumber (table : SymbolTable) (symbol : Symbol) :
    (table.renumber f).insert (symbol.renumber f) =
      ((table.insert symbol).mapError (·.renumber f)).map (·.renumber f) := by
  have hname : (symbol.renumber f).name = symbol.name := rfl
  rw [insert, hname, get?_renumber, insert]
  cases table.get? symbol.name with
  | some first => rfl
  | none => simp [renumber, Except.map, Except.mapError]

end SymbolTable

namespace Operand

theorem value_renumber (table : SymbolTable) (token : Text) :
    Operand.value (table.renumber f) token = Operand.value table token := by
  simp [Operand.value, SymbolTable.value?_renumber]

theorem parse_renumber (table : SymbolTable) (token : Text) :
    parse (table.renumber f) token = parse table token := by
  simp [parse, address, value_renumber, SymbolTable.constant?_renumber]

end Operand

/-! ## Placing renumbered lines -/

namespace Layout

@[simp] theorem current_renumber (layout : Layout) :
    (layout.renumber f).current = layout.current := rfl

@[simp] theorem data_renumber (layout : Layout) : (layout.renumber f).data = layout.data := rfl

@[simp] theorem dataCursor_renumber (layout : Layout) :
    (layout.renumber f).dataCursor = layout.dataCursor := rfl

theorem checkedCursor_renumber (layout : Layout) :
    (layout.renumber f).checkedCursor = renumbered f id layout.checkedCursor := by
  rw [checkedCursor, dataCursor_renumber, checkedCursor]
  split
  · rfl
  · rfl

@[simp] theorem textCursor_renumber (layout : Layout) :
    (layout.renumber f).textCursor = layout.textCursor := by
  simp [textCursor, renumber]

theorem define_renumber (layout : Layout) (name : Piece) (line : Nat) (value : Int)
    (kind : SymbolKind) :
    (layout.renumber f).define name (f line) value kind =
      renumbered f (Layout.renumber f) (layout.define name line value kind) := by
  have hinsert : (layout.renumber f).symbols.insert
      { name := name.text, value, kind, line := f line } =
        ((layout.symbols.insert { name := name.text, value, kind, line }).mapError
          (·.renumber f)).map (·.renumber f) :=
    layout.symbols.insert_renumber { name := name.text, value, kind, line }
  rw [define, hinsert, define]
  cases layout.symbols.insert { name := name.text, value, kind, line } with
  | ok symbols => rfl
  | error first => rfl

theorem placeLabel_renumber (layout : Layout) (label : Piece) (line : Nat) :
    (layout.renumber f).placeLabel label (f line) =
      renumbered f (Layout.renumber f) (layout.placeLabel label line) := by
  unfold placeLabel
  split
  · rfl
  · rw [current_renumber]
    cases layout.current with
    | data =>
        dsimp only
        rw [checkedCursor_renumber]
        apply renumbered_bind
        intro cursor
        dsimp only [id]
        split
        · rfl
        · exact define_renumber ..
    | text =>
        dsimp only
        rw [textCursor_renumber]
        exact define_renumber ..

theorem argument_renumber (layout : Layout) (line : Nat) (min max : Int) (piece : Piece) :
    (layout.renumber f).argument (f line) min max piece =
      renumbered f id (layout.argument line min max piece) := by
  have hvalue : Operand.value (layout.renumber f).symbols piece.text =
      Operand.value layout.symbols piece.text :=
    Operand.value_renumber ..
  unfold argument
  dsimp only
  rw [hvalue]
  split
  · rfl
  · rfl

theorem stringArgument_renumber (line : Nat) (piece : Piece) :
    stringArgument (f line) piece = renumbered f id (stringArgument line piece) := by
  unfold stringArgument
  split
  · rfl
  · rfl

theorem emitEach_renumber (layout : Layout) (directive : Directive) (line column : Nat)
    {bytes bytes' : Piece → Except AssemblyFailure (List UInt8)}
    (hbytes : ∀ piece, bytes' piece = renumbered f id (bytes piece)) (arguments : List Piece) :
    (layout.renumber f).emitEach
        (.rejected { cause := .directiveArguments directive, line := f line, column }) bytes'
        arguments =
      renumbered f (Layout.renumber f)
        (layout.emitEach (.rejected { cause := .directiveArguments directive, line, column })
          bytes arguments) := by
  have hparts := renumbered_mapM (g := id) hbytes arguments
  unfold emitEach
  split
  · rfl
  · rw [List.map_id] at hparts
    rw [hparts]
    apply renumbered_bind
    intro parts
    rw [List.map_id]
    rfl

theorem origin_renumber (layout : Layout) (target line column : Nat) :
    (layout.renumber f).origin target (f line) column =
      renumbered f (Layout.renumber f) (layout.origin target line column) := by
  have hrebase : ∀ kind start, (layout.renumber f).symbols.rebase kind start target =
      (layout.symbols.rebase kind start target).renumber f :=
    fun kind start => SymbolTable.rebase_renumber layout.symbols kind start target
  have hentries : (layout.renumber f).entries.isEmpty = layout.entries.isEmpty := by
    simp [renumber, Array.isEmpty]
  rw [origin, origin, current_renumber]
  cases layout.current with
  | text =>
      dsimp only
      rw [hentries, hrebase]
      split
      · rfl
      · rfl
  | data =>
      dsimp only
      rw [data_renumber, checkedCursor_renumber, hrebase]
      split
      · rfl
      · apply renumbered_bind
        intro cursor
        dsimp only [id]
        split
        · rfl
        · rfl

theorem apply_renumber (layout : Layout) (directive : Directive) (line column : Nat)
    (arguments : List Piece) :
    (layout.renumber f).apply directive (f line) column arguments =
      renumbered f (Layout.renumber f) (layout.apply directive line column arguments) := by
  cases directive with
  | data | text =>
      unfold apply
      dsimp only
      split
      · rfl
      · rfl
  | org =>
      unfold apply
      dsimp only
      split
      · rw [argument_renumber]
        apply renumbered_bind
        intro target
        exact origin_renumber ..
      · rfl
  | equ =>
      unfold apply
      dsimp only
      split
      · rfl
      · split
        · rfl
        · rw [argument_renumber]
          apply renumbered_bind
          intro value
          exact define_renumber ..
  | byte =>
      refine emitEach_renumber layout .byte line column ?_ arguments
      intro piece
      rw [argument_renumber, renumbered_map]
  | word =>
      refine emitEach_renumber layout .word line column ?_ arguments
      intro piece
      rw [argument_renumber, renumbered_map]
  | ascii =>
      exact emitEach_renumber layout .ascii line column (stringArgument_renumber line) arguments
  | asciz =>
      refine emitEach_renumber layout .asciz line column ?_ arguments
      intro piece
      rw [stringArgument_renumber, renumbered_map]
  | space =>
      unfold apply
      dsimp only
      split
      · rw [argument_renumber]
        apply renumbered_bind
        intro count
        rfl
      · rfl
  | align =>
      unfold apply
      dsimp only
      split
      · rw [argument_renumber]
        apply renumbered_bind
        intro value
        rw [checkedCursor_renumber]
        dsimp only [id]
        split
        · apply renumbered_bind
          intro cursor
          rfl
        · rfl
      · rfl

/-- Cutting the operands of a statement reads no line number. -/
theorem operandPieces_bind_renumber {α β : Type} {k : α → β} (rest : Option Piece)
    {use : List Piece → Except AssemblyFailure α} {use' : List Piece → Except AssemblyFailure β}
    (huse : ∀ pieces, use' pieces = renumbered f k (use pieces)) :
    operandPieces rest >>= use' = renumbered f k (operandPieces rest >>= use) := by
  unfold operandPieces
  split
  · exact huse []
  · split
    · exact huse _
    · rfl

theorem placeDirective_renumber (layout : Layout) (statement : Piece) (line : Nat) :
    (layout.renumber f).placeDirective statement (f line) =
      renumbered f (Layout.renumber f) (layout.placeDirective statement line) := by
  unfold placeDirective
  dsimp only
  split
  · rfl
  · rw [current_renumber]
    split
    · rfl
    · apply operandPieces_bind_renumber
      intro arguments
      rw [apply_renumber]
      apply renumbered_bind
      intro applied
      rw [checkedCursor_renumber]
      apply renumbered_bind
      intro cursor
      dsimp only [id]
      split
      · rfl
      · rfl

theorem placeInstruction_renumber (layout : Layout) (statement : Piece) (line : Nat) :
    (layout.renumber f).placeInstruction statement (f line) =
      renumbered f (Layout.renumber f) (layout.placeInstruction statement line) := by
  unfold placeInstruction
  dsimp only
  split
  · rfl
  · rw [current_renumber, textCursor_renumber]
    split
    · rfl
    · split
      · rfl
      · simp [renumber, Entry.renumber]

theorem placeStatement_renumber (layout : Layout) (statement : Piece) (line : Nat) :
    (layout.renumber f).placeStatement statement (f line) =
      renumbered f (Layout.renumber f) (layout.placeStatement statement line) := by
  unfold placeStatement
  split
  · exact placeDirective_renumber ..
  · exact placeInstruction_renumber ..

theorem place_renumber (layout : Layout) (line : SourceLine) :
    (layout.renumber f).place (line.renumber f) =
      renumbered f (Layout.renumber f) (layout.place line) := by
  obtain ⟨number, code, label, statement⟩ := line
  have hstatement : ∀ layout : Layout,
      (layout.renumber f).place ⟨f number, code, none, statement⟩ =
        renumbered f (Layout.renumber f) (layout.place ⟨number, code, none, statement⟩) := by
    intro layout
    cases statement with
    | none => rfl
    | some statement => exact placeStatement_renumber layout statement number
  cases label with
  | none => exact hstatement layout
  | some label =>
      -- a line with a label is its label and, behind it, the line without
      have hlabel : (layout.renumber f).place ⟨f number, code, some label, statement⟩ =
          (layout.renumber f).placeLabel label (f number) >>= fun layout' =>
            layout'.place ⟨f number, code, none, statement⟩ := rfl
      rw [SourceLine.renumber, hlabel, placeLabel_renumber]
      exact renumbered_bind hstatement

theorem ofLines_renumber (lines : List SourceLine) :
    ofLines (lines.map (·.renumber f)) = renumbered f (Layout.renumber f) (ofLines lines) := by
  have hempty : Layout.renumber f {} = {} := by simp [renumber, SymbolTable.renumber]
  rw [ofLines, ← hempty]
  exact renumbered_foldlM place_renumber lines {}

/-! ## Reading the operands of renumbered lines -/

theorem operand_renumber (layout : Layout) (line : Nat) (piece : Piece) :
    (layout.renumber f).operand (f line) piece = renumbered f id (layout.operand line piece) := by
  have hparse : Operand.parse (layout.renumber f).symbols piece.text =
      Operand.parse layout.symbols piece.text :=
    Operand.parse_renumber ..
  unfold operand
  rw [hparse]
  split
  · rfl
  · split
    · rfl
    · rfl

theorem instruction_renumber (layout : Layout) (entry : Entry) (index : Nat) :
    (layout.renumber f).instruction (entry.renumber f) index =
      renumbered f (Instruction.renumber f) (layout.instruction entry index) := by
  have hoperands : ∀ pieces : List Piece,
      pieces.mapM ((layout.renumber f).operand (f entry.line)) =
        renumbered f id (pieces.mapM (layout.operand entry.line)) := by
    intro pieces
    simpa using renumbered_mapM (g := id) (operand_renumber layout entry.line) pieces
  unfold instruction Entry.renumber
  dsimp only
  apply operandPieces_bind_renumber
  intro pieces
  rw [hoperands]
  apply renumbered_bind
  intro operands
  dsimp only [id]
  split
  · rfl
  · rfl

theorem resolve_renumber (layout : Layout) :
    (layout.renumber f).resolve =
      renumbered f (List.map (Instruction.renumber f)) layout.resolve := by
  have hentries : (layout.renumber f).entries.toList.zipIdx =
      layout.entries.toList.zipIdx.map (Prod.map (Entry.renumber f) id) := by
    simp [renumber, List.zipIdx_map]
  rw [resolve, hentries]
  exact renumbered_mapM (fun entry => instruction_renumber layout entry.1 entry.2) _

theorem validateName_renumber (layout : Layout) (instruction : Instruction) (name : Text) :
    (layout.renumber f).validateName (instruction.renumber f) name =
      renumbered f id (layout.validateName instruction name) := by
  have hget : (layout.renumber f).symbols.get? name =
      (layout.symbols.get? name).map (·.renumber f) :=
    SymbolTable.get?_renumber ..
  rw [validateName, hget, validateName]
  cases layout.symbols.get? name with
  | none => rfl
  | some symbol =>
      have hkind : (symbol.renumber f).kind = symbol.kind := rfl
      have hopcode : (instruction.renumber f).opcode = instruction.opcode := rfl
      rw [Option.map_some]
      dsimp only
      rw [hkind, hopcode]
      split
      · rfl
      · rfl

theorem validate_renumber (layout : Layout) (instruction : Instruction) :
    (layout.renumber f).validate (instruction.renumber f) =
      renumbered f id (layout.validate instruction) := by
  have hnames := renumbered_forM (f := f) (g := id) (validateName_renumber layout instruction)
    (instruction.operands.filterMap Operand.labelName?)
  rw [List.map_id] at hnames
  exact hnames

theorem program_renumber (layout : Layout) :
    (layout.renumber f).program = renumbered f (Program.renumber f) layout.program := by
  rw [program, resolve_renumber, program]
  apply renumbered_bind
  intro instructions
  rw [renumbered_forM (validate_renumber layout)]
  apply renumbered_bind
  intro _
  simp [renumber, Program.renumber]

end Layout

/-- Sources whose lines differ in their numbers alone assemble alike. -/
theorem assemble_renumber {source source' : Text}
    (hlines : SourceLine.ofText source' = (SourceLine.ofText source).map (·.renumber f)) :
    assemble source' = renumbered f (Program.renumber f) (assemble source) := by
  rw [assemble, Layout.ofText, hlines, Layout.ofLines_renumber, assemble, Layout.ofText]
  exact renumbered_bind Layout.program_renumber

end WordMachine
