import WordMachine.Assembly.Resolution
import WordMachine.Proofs.LayoutSteps

/-!
# The layout of an assembled program

The instructions of an assembled program are its instruction statements, one
after the other from the start of the text section.  A label stands where its
line begins: so many instructions or data bytes from where its section starts in
the end, however late an origin has moved the section there.
-/

namespace WordMachine

/-! ## What a source says -/

namespace SourceLine

def directive? (line : SourceLine) : Option Directive :=
  match line.statement with
  | some statement =>
      if statement.text.head? = some '.' then Directive.ofText? statement.splitWord.1.text
      else none
  | none => none

def instruction? (line : SourceLine) : Option (Nat × Piece) :=
  match line.statement with
  | some statement =>
      if statement.text.head? = some '.' then none else some (line.number, statement)
  | none => none

def sectionAfter (current : Section) (line : SourceLine) : Section :=
  match line.directive? with
  | some .data => .data
  | some .text => .text
  | _ => current

/-- The section in which the line after some lines starts. -/
def sectionOf (lines : List SourceLine) : Section := lines.foldl sectionAfter .text

def instructions (lines : List SourceLine) : List (Nat × Piece) := lines.filterMap instruction?

end SourceLine

/-! ## What placing lines comes to -/

namespace Layout

variable {layout middle layout' : Layout} {line : SourceLine} {lines : List SourceLine}

/-- Some lines lead from one layout to another. -/
structure Places (layout : Layout) (lines : List SourceLine) (layout' : Layout) : Prop where
  keeps : layout.Keeps layout'
  current : layout'.current = lines.foldl SourceLine.sectionAfter layout.current
  entries : layout'.entries.toList.map some =
    layout.entries.toList.map some ++
      (SourceLine.instructions lines).map fun (number, statement) => entryOf? number statement

theorem Places.nil (layout : Layout) : layout.Places [] layout where
  keeps := .refl layout
  current := rfl
  entries := (List.append_nil _).symm

theorem Places.append {lines' : List SourceLine}
    (hfirst : layout.Places lines middle) (hsecond : middle.Places lines' layout') :
    layout.Places (lines ++ lines') layout' where
  keeps := hfirst.keeps.trans hsecond.keeps
  current := by
    rw [List.foldl_append, ← hfirst.current]
    exact hsecond.current
  entries := by
    rw [hsecond.entries, hfirst.entries, SourceLine.instructions, SourceLine.instructions,
      SourceLine.instructions, List.filterMap_append, List.map_append, List.append_assoc]

theorem Applied.current_eq {directive : Directive} (happlied : layout.Applied directive layout') :
    layout'.current =
      match directive with
      | .data => .data
      | .text => .text
      | _ => layout.current := by
  cases happlied with
  | enterData | enterText | moveText | moveData | constant => rfl
  | emit _ _ hdata htext =>
      cases directive with
      | data => exact absurd rfl hdata
      | text => exact absurd rfl htext
      | org | equ | byte | word | ascii | asciz | space | align => rfl

theorem Applied.entries_eq {directive : Directive} (happlied : layout.Applied directive layout') :
    layout'.entries = layout.entries := by
  cases happlied with
  | enterData | enterText | moveText | moveData | constant | emit => rfl

theorem places_of_placeStatement
    {statement : Piece} (hstatement : line.statement = some statement)
    (hplace : layout.placeStatement statement line.number = .ok layout') :
    layout.Places [line] layout' := by
  unfold placeStatement at hplace
  split at hplace
  next hpoint =>
    obtain ⟨directive, hdirective, happlied⟩ := applied_of_placeDirective hplace
    refine ⟨happlied.keeps, ?_, ?_⟩
    · rw [happlied.current_eq, List.foldl_cons, List.foldl_nil, SourceLine.sectionAfter,
        SourceLine.directive?, hstatement]
      dsimp only
      rw [if_pos hpoint, hdirective]
      cases directive with
      | data | text | org | equ | byte | word | ascii | asciz | space | align => rfl
    · rw [happlied.entries_eq, SourceLine.instructions, List.filterMap_cons,
        SourceLine.instruction?, hstatement]
      simp [hpoint]
  next hpoint =>
    obtain ⟨entry, hentry, hroom, rfl⟩ := entry_of_placeInstruction hplace
    refine ⟨keeps_push entry hroom, ?_, ?_⟩
    · rw [List.foldl_cons, List.foldl_nil, SourceLine.sectionAfter, SourceLine.directive?,
        hstatement]
      simp [hpoint]
    · rw [SourceLine.instructions, List.filterMap_cons, SourceLine.instruction?, hstatement]
      simp [hpoint, hentry]

theorem halves_of_place
    (hplace : layout.place line = .ok layout') :
    ∃ labelled,
      (match line.label with
        | some label => layout.placeLabel label line.number
        | none => .ok layout) = .ok labelled ∧
      (match line.statement with
        | some statement => labelled.placeStatement statement line.number
        | none => .ok labelled) = .ok layout' := by
  unfold place at hplace
  cases hline : line.label with
  | some label =>
      rw [hline] at hplace
      exact exists_of_bind_eq_ok hplace
  | none =>
      rw [hline] at hplace
      exact ⟨layout, rfl, hplace⟩

/-- After its label, a line does no more than its statement says. -/
theorem places_after_label
    (hstatement : (match line.statement with
      | some statement => layout.placeStatement statement line.number
      | none => .ok layout) = .ok layout') :
    layout.Places [line] layout' := by
  cases hline : line.statement with
  | some statement =>
      rw [hline] at hstatement
      exact places_of_placeStatement hline hstatement
  | none =>
      rw [hline] at hstatement
      cases hstatement
      refine ⟨.refl layout, ?_, ?_⟩
      · rw [List.foldl_cons, List.foldl_nil, SourceLine.sectionAfter, SourceLine.directive?,
          hline]
      · rw [SourceLine.instructions, List.filterMap_cons, SourceLine.instruction?, hline]
        exact (List.append_nil _).symm

theorem places_of_place
    (hplace : layout.place line = .ok layout') :
    layout.Places [line] layout' := by
  obtain ⟨labelled, hlabel, hstatement⟩ := halves_of_place hplace
  have hplaces := places_after_label hstatement
  cases hline : line.label with
  | none =>
      rw [hline] at hlabel
      cases hlabel
      exact hplaces
  | some label =>
      rw [hline] at hlabel
      have hkeeps := keeps_placeLabel hlabel
      obtain ⟨symbols, -, rfl⟩ := symbols_of_placeLabel hlabel
      exact ⟨hkeeps.trans hplaces.keeps, hplaces.current, hplaces.entries⟩

/-- What the label and the statement of a line keep is kept by the line. -/
theorem place_induction {P : Layout → Prop}
    (hlabel : ∀ layout label layout', line.label = some label → P layout →
      layout.placeLabel label line.number = .ok layout' → P layout')
    (hstatement : ∀ layout statement layout', line.statement = some statement → P layout →
      layout.placeStatement statement line.number = .ok layout' → P layout')
    (h : P layout) (hplace : layout.place line = .ok layout') : P layout' := by
  obtain ⟨labelled, hfirst, hlast⟩ := halves_of_place hplace
  have hlabelled : P labelled := by
    cases hline : line.label with
    | some label =>
        rw [hline] at hfirst
        exact hlabel layout label labelled hline h hfirst
    | none =>
        rw [hline] at hfirst
        cases hfirst
        exact h
  cases hline : line.statement with
  | some statement =>
      rw [hline] at hlast
      exact hstatement labelled statement layout' hline hlabelled hlast
  | none =>
      rw [hline] at hlast
      cases hlast
      exact hlabelled

/-- What every line keeps is kept by all of them. -/
theorem foldlM_induction {P : Layout → Prop}
    (hplace : ∀ line ∈ lines, ∀ layout layout',
      P layout → layout.place line = .ok layout' → P layout')
    (h : P layout) (hfold : lines.foldlM place layout = .ok layout') : P layout' := by
  induction lines generalizing layout with
  | nil =>
      cases hfold
      exact h
  | cons line lines ih =>
      rw [List.foldlM_cons] at hfold
      obtain ⟨next, hnext, hrest⟩ := exists_of_bind_eq_ok hfold
      refine ih (fun later hlater => hplace later (List.mem_cons_of_mem _ hlater)) ?_ hrest
      exact hplace line List.mem_cons_self layout next h hnext

theorem places_of_foldlM
    (hfold : lines.foldlM place layout = .ok layout') :
    layout.Places lines layout' := by
  induction lines generalizing layout with
  | nil =>
      cases hfold
      exact .nil _
  | cons line lines ih =>
      rw [List.foldlM_cons] at hfold
      obtain ⟨next, hplace, hrest⟩ := exists_of_bind_eq_ok hfold
      exact (places_of_place hplace).append (ih hrest)

/-- A label stands at the cursor at which its line began, moved as its section has moved. -/
theorem get?_label
    {before after : List SourceLine} {label : Piece}
    (hlayout : ofLines (before ++ line :: after) = .ok layout) (hlabel : line.label = some label) :
    ∃ early,
      ofLines before = .ok early ∧ early.Extends layout ∧
        layout.symbols.get? label.text =
          some (early.carry layout (early.labelSymbol label line.number)) := by
  unfold ofLines at hlayout
  rw [List.foldlM_append] at hlayout
  obtain ⟨early, hearly, hlater⟩ := exists_of_bind_eq_ok hlayout
  rw [List.foldlM_cons] at hlater
  obtain ⟨next, hplace, hafter⟩ := exists_of_bind_eq_ok hlater
  obtain ⟨labelled, hplaceLabel, hstatement⟩ := halves_of_place hplace
  rw [hlabel] at hplaceLabel
  have hanchored := ((places_of_foldlM hearly).keeps anchored_empty).1
  obtain ⟨hlabelled, hextends⟩ := keeps_placeLabel hplaceLabel hanchored
  have hrest := (places_after_label hstatement).keeps.trans (places_of_foldlM hafter).keeps
  obtain ⟨-, hextends'⟩ := hrest hlabelled
  refine ⟨early, hearly, hextends.trans hextends', ?_⟩
  obtain ⟨symbols, hinsert, rfl⟩ := symbols_of_placeLabel hplaceLabel
  have hself := SymbolTable.get?_insert_self hinsert
  have hname : (early.labelSymbol label line.number).name = label.text := by
    unfold labelSymbol
    split
    · rfl
    · rfl
  rw [hname] at hself
  exact hextends'.symbols label.text _ hself

theorem size_entries_of_ofLines
    (hlayout : ofLines lines = .ok layout) :
    layout.entries.size = (SourceLine.instructions lines).length := by
  have hentries := congrArg List.length (places_of_foldlM hlayout).entries
  simpa using hentries

theorem current_of_ofLines
    (hlayout : ofLines lines = .ok layout) :
    layout.current = SourceLine.sectionOf lines :=
  (places_of_foldlM hlayout).current

/-! ## Resolution -/

theorem parse_of_operand
    {number : Nat} {piece : Piece} {operand : Operand}
    (hoperand : layout.operand number piece = .ok operand) :
    Operand.parse layout.symbols piece.text = .ok operand := by
  unfold Layout.operand at hoperand
  split at hoperand
  · cases hoperand
  · split at hoperand
    next hparse =>
      cases hoperand
      exact hparse
    · cases hoperand

theorem of_instruction
    {entry : Entry} {index : Nat} {instruction : Instruction}
    (hinstruction : layout.instruction entry index = .ok instruction) :
    ∃ pieces operands,
      operandPieces entry.operands = .ok pieces ∧
        List.Forall₂ (fun piece operand => Operand.parse layout.symbols piece.text = .ok operand)
          pieces operands ∧
        instruction =
          { opcode := entry.opcode, operands, line := entry.line, column := entry.column
            source := entry.source, address := BitVec.ofNat 16 (layout.textStart + index) } := by
  unfold Layout.instruction at hinstruction
  obtain ⟨pieces, hpieces, hrest⟩ := exists_of_bind_eq_ok hinstruction
  obtain ⟨operands, hoperands, hcheck⟩ := exists_of_bind_eq_ok hrest
  have hparsed := (forall₂_of_mapM_eq_ok hoperands).imp fun _ _ => parse_of_operand
  refine ⟨pieces, operands, hpieces, hparsed, ?_⟩
  split at hcheck
  · cases hcheck
  · cases hcheck
    rfl

theorem of_program
    {program : Program} (hprogram : layout.program = .ok program) :
    ∃ instructions,
      layout.resolve = .ok instructions ∧
        program =
          { instructions := instructions.toArray, symbols := layout.symbols, data := layout.data
            textStart := BitVec.ofNat 16 layout.textStart
            dataStart := BitVec.ofNat 16 layout.dataStart } := by
  unfold Layout.program at hprogram
  obtain ⟨instructions, hresolve, hrest⟩ := exists_of_bind_eq_ok hprogram
  obtain ⟨_, -, hok⟩ := exists_of_bind_eq_ok hrest
  cases hok
  exact ⟨instructions, hresolve, rfl⟩

theorem of_resolve
    {instructions : List Instruction} (hresolve : layout.resolve = .ok instructions) :
    instructions.length = layout.entries.size ∧
      ∀ index instruction, instructions[index]? = some instruction →
        ∃ entry, layout.entries[index]? = some entry ∧
          layout.instruction entry index = .ok instruction := by
  have hall := forall₂_of_mapM_eq_ok hresolve
  have hlength := hall.length_eq
  rw [List.length_zipIdx, Array.length_toList] at hlength
  refine ⟨hlength.symm, ?_⟩
  intro index instruction hinstruction
  obtain ⟨hindex, hget⟩ := List.getElem?_eq_some_iff.mp hinstruction
  have hroom : index < layout.entries.size := by omega
  have hread := hall.get (i := index)
    (by rw [List.length_zipIdx, Array.length_toList]; exact hroom) hindex
  simp only [List.get_eq_getElem, List.getElem_zipIdx, hget, Nat.zero_add,
    Array.getElem_toList] at hread
  exact ⟨layout.entries[index], Array.getElem?_eq_getElem hroom, hread⟩

end Layout

/-! ## The result -/

/-- The instruction is read from a statement of a line, with the symbols of the whole
program. -/
structure Instruction.ReadsAs (symbols : SymbolTable) (number : Nat) (statement : Piece)
    (instruction : Instruction) : Prop where
  line : instruction.line = number
  column : instruction.column = statement.column
  source : instruction.source = statement.text
  opcode : Opcode.ofText? statement.splitWord.1.text = some instruction.opcode
  operands : ∃ pieces,
    Layout.operandPieces statement.splitWord.2 = .ok pieces ∧
      List.Forall₂ (fun piece operand => Operand.parse symbols piece.text = .ok operand)
        pieces instruction.operands

/-- The symbol that a label of a program has to be, where some lines stand before its own
and emit so many bytes. -/
def Program.labelSymbol (program : Program) (before : List SourceLine) (bytes : Nat)
    (label : Piece) (line : Nat) : Symbol :=
  match SourceLine.sectionOf before with
  | .text =>
      { name := label.text
        value := program.textStart.toNat + (SourceLine.instructions before).length
        kind := .code
        line }
  | .data =>
      { name := label.text
        value := program.dataStart.toNat + bytes
        kind := .data
        line }

namespace Layout

variable {layout : Layout} {lines : List SourceLine} {program : Program}

theorem readsAs_of_instruction
    {entry : Entry} {index number : Nat} {statement : Piece} {instruction : Instruction}
    (hentry : entryOf? number statement = some entry)
    (hinstruction : layout.instruction entry index = .ok instruction) :
    instruction.address = BitVec.ofNat 16 (layout.textStart + index) ∧
      instruction.ReadsAs layout.symbols number statement := by
  obtain ⟨pieces, operands, hpieces, hoperands, rfl⟩ := of_instruction hinstruction
  unfold entryOf? at hentry
  obtain ⟨opcode, hopcode, rfl⟩ := Option.map_eq_some_iff.mp hentry
  exact ⟨rfl, rfl, rfl, rfl, hopcode, pieces, hpieces, hoperands⟩

theorem exists_statement_of_entry
    {entry : Entry} {index : Nat}
    (hlayout : ofLines lines = .ok layout) (hentry : layout.entries[index]? = some entry) :
    ∃ number statement,
      (SourceLine.instructions lines)[index]? = some (number, statement) ∧
        entryOf? number statement = some entry := by
  have hentries := congrArg (·[index]?) (places_of_foldlM hlayout).entries
  simp only [List.map_nil, List.nil_append, List.getElem?_map, Array.getElem?_toList,
    hentry, Option.map_some] at hentries
  obtain ⟨⟨number, statement⟩, hstatement, hread⟩ := Option.map_eq_some_iff.mp hentries.symm
  exact ⟨number, statement, hstatement, hread⟩

/-- No instruction number and no address is lost when it becomes a word. -/
theorem starts_of_ofLines
    (hlayout : ofLines lines = .ok layout) :
    layout.textStart + layout.entries.size ≤ addressSpace ∧
      (BitVec.ofNat 16 layout.textStart).toNat = layout.textStart ∧
        (BitVec.ofNat 16 layout.dataStart).toNat = layout.dataStart := by
  have hanchored := ((places_of_foldlM hlayout).keeps anchored_empty).1
  refine ⟨hanchored.textCursor_le, ?_, ?_⟩
  · rw [BitVec.toNat_ofNat]
    exact Nat.mod_eq_of_lt hanchored.textStart_lt
  · rw [BitVec.toNat_ofNat]
    exact Nat.mod_eq_of_lt hanchored.dataStart_lt

theorem instruction_of_program
    (hlayout : ofLines lines = .ok layout) (hprogram : layout.program = .ok program)
    {index : Nat} {instruction : Instruction}
    (hinstruction : program.instructions[index]? = some instruction) :
    ∃ number statement,
      (SourceLine.instructions lines)[index]? = some (number, statement) ∧
        instruction.address.toNat = program.textStart.toNat + index ∧
          instruction.ReadsAs program.symbols number statement := by
  obtain ⟨instructions, hresolve, rfl⟩ := of_program hprogram
  obtain ⟨hlength, hresolved⟩ := of_resolve hresolve
  rw [List.getElem?_toArray] at hinstruction
  obtain ⟨entry, hentry, hread⟩ := hresolved index instruction hinstruction
  obtain ⟨number, statement, hstatement, hof⟩ := exists_statement_of_entry hlayout hentry
  obtain ⟨haddress, hreads⟩ := readsAs_of_instruction hof hread
  obtain ⟨hroom, htext, -⟩ := starts_of_ofLines hlayout
  have hindex : index < layout.entries.size := (Array.getElem?_eq_some_iff.mp hentry).1
  refine ⟨number, statement, hstatement, ?_, hreads⟩
  rw [haddress, htext, BitVec.toNat_ofNat]
  apply Nat.mod_eq_of_lt
  unfold addressSpace at hroom
  omega

theorem label_of_program
    {before after : List SourceLine} {line : SourceLine} {label : Piece}
    (hlayout : ofLines (before ++ line :: after) = .ok layout)
    (hprogram : layout.program = .ok program) (hlabel : line.label = some label) :
    ∃ early,
      ofLines before = .ok early ∧ early.data.toList <+: program.data.toList ∧
        program.symbols.get? label.text =
          some
            (program.labelSymbol before (early.data.size % 4294967296) label line.number) := by
  obtain ⟨early, hearly, hextends, hget⟩ := get?_label hlayout hlabel
  obtain ⟨-, htext, hdata⟩ := starts_of_ofLines hlayout
  obtain ⟨instructions, -, rfl⟩ := of_program hprogram
  refine ⟨early, hearly, hextends.data, ?_⟩
  rw [hget, Program.labelSymbol, labelSymbol, ← current_of_ofLines hearly,
    ← size_entries_of_ofLines hearly, htext, hdata]
  cases early.current with
  | text =>
      simp only [carry, shift, textCursor, Option.some.injEq, Symbol.mk.injEq, true_and, and_true]
      omega
  | data =>
      simp only [carry, shift, dataCursor, Option.some.injEq, Symbol.mk.injEq, true_and, and_true]
      omega

end Layout

end WordMachine
