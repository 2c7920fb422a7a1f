import WordMachine.Proofs.LayoutExactness

/-!
# Values that directives read

A directive that names a symbol reads its value at once, while the layout is still
going on.  That is the value the symbol has in the end, with one exception: a label
of a section that is still empty is read where the section starts at that moment,
and an origin may yet move it away.
-/

namespace WordMachine

/-! ## What a directive reads -/

namespace Directive

/-- The arguments that are read as numbers. -/
def numbers (directive : Directive) (arguments : List Piece) : List Piece :=
  match directive with
  | .equ =>
      match Layout.nameAndValue? arguments with
      | some (_, value) => [value]
      | none => []
  | .org | .byte | .word | .space | .align => arguments
  | .data | .text | .ascii | .asciz => []

/-- The least and the greatest number that is accepted. -/
def range : Directive → Int × Int
  | .org => (0, 65535)
  | .byte => (-128, 255)
  | .space => (0, addressSpace)
  | .equ | .word | .align | .data | .text | .ascii | .asciz =>
      (Literal.minValue, Literal.maxValue)

end Directive

/-- The pieces of its statement that a line's directive gets as arguments. -/
def SourceLine.arguments (line : SourceLine) : List Piece :=
  match line.statement with
  | some statement => Layout.cutOperands statement.splitWord.2
  | none => []

namespace Layout

variable {layout middle layout' : Layout} {line column : Nat} {piece : Piece}

/-- The layout at which the statement of a line is carried out. -/
def atStatement (layout : Layout) (line : SourceLine) : Except AssemblyFailure Layout :=
  match line.label with
  | some label => layout.placeLabel label line.number
  | none => .ok layout

def Reads (layout : Layout) (line : Nat) (directive : Directive) (piece : Piece) (value : Int) :
    Prop :=
  layout.argument line directive.range.1 directive.range.2 piece = .ok value

theorem reads_of_emitEach {directive : Directive} {wrongArguments : AssemblyFailure}
    {bytes : Piece → Except AssemblyFailure (List UInt8)} {form : Int → List UInt8}
    {arguments : List Piece}
    (hbytes : ∀ piece, bytes piece =
      form <$> layout.argument line directive.range.1 directive.range.2 piece)
    (hemit : layout.emitEach wrongArguments bytes arguments = .ok layout')
    (hpiece : piece ∈ arguments) :
    ∃ value, layout.Reads line directive piece value := by
  unfold emitEach at hemit
  split at hemit
  · cases hemit
  · obtain ⟨parts, hparts, -⟩ := exists_of_bind_eq_ok hemit
    have hall := forall₂_of_mapM_eq_ok hparts
    obtain ⟨index, hindex, rfl⟩ := List.mem_iff_getElem.mp hpiece
    have hread := hall.get hindex (hall.length_eq ▸ hindex)
    rw [hbytes] at hread
    obtain ⟨value, hargument, -⟩ := exists_of_map_eq_ok hread
    exact ⟨value, hargument⟩

/-- A directive that is carried out has read all its numbers. -/
theorem reads_of_apply {directive : Directive} {arguments : List Piece}
    (happly : layout.apply directive line column arguments = .ok layout')
    (hpiece : piece ∈ directive.numbers arguments) :
    ∃ value, layout.Reads line directive piece value := by
  unfold apply at happly
  unfold Directive.numbers at hpiece
  cases directive with
  | data | text | ascii | asciz => cases hpiece
  | org | space | align =>
      dsimp only at happly hpiece
      split at happly
      · obtain ⟨value, hargument, -⟩ := exists_of_bind_eq_ok happly
        obtain rfl := List.mem_singleton.mp hpiece
        exact ⟨value, hargument⟩
      · cases happly
  | byte => exact reads_of_emitEach (fun _ => rfl) happly hpiece
  | word => exact reads_of_emitEach (fun _ => rfl) happly hpiece
  | equ =>
      dsimp only at happly hpiece
      split at happly
      · cases happly
      next name value hpair =>
        rw [hpair] at hpiece
        obtain rfl := List.mem_singleton.mp hpiece
        split at happly
        · cases happly
        · obtain ⟨value, hargument, -⟩ := exists_of_bind_eq_ok happly
          exact ⟨value, hargument⟩

theorem symbol_of_reads {directive : Directive} {value : Int}
    (hname : Text.isIdentifier piece.text = true)
    (hreads : layout.Reads line directive piece value) :
    ∃ symbol, layout.symbols.get? piece.text = some symbol ∧ symbol.value = value := by
  unfold Reads argument at hreads
  dsimp only at hreads
  split at hreads
  next hresult =>
    cases hreads
    obtain ⟨found, hfound, hrange⟩ := exists_of_bind_eq_ok hresult
    unfold Operand.value at hfound
    rw [if_pos hname] at hfound
    obtain ⟨rfl, -⟩ := Literal.inRange_eq_ok_iff.mp (ok_of_mapError_eq_ok hrange)
    split at hfound
    next hvalue =>
      cases hfound
      exact Option.map_eq_some_iff.mp hvalue
    · cases hfound
  · cases hreads

/-! ## What lines keep -/

/-- A property of layouts that no label, instruction or directive takes away. -/
structure Stable (P : Layout → Prop) : Prop where
  label : ∀ {layout layout' label line},
    P layout → layout.placeLabel label line = .ok layout' → P layout'
  entry : ∀ {layout : Layout} (entry : Entry),
    P layout → layout.textCursor < addressSpace →
      P { layout with entries := layout.entries.push entry }
  directive : ∀ {layout layout' directive line column arguments},
    P layout → layout.apply directive line column arguments = .ok layout' → P layout'

namespace Stable

variable {P : Layout → Prop} {number : Nat} {statement : Piece} {source : SourceLine}
  {lines : List SourceLine}

theorem placeStatement (hstable : Stable P) (h : P layout)
    (hplace : layout.placeStatement statement number = .ok layout') : P layout' := by
  unfold Layout.placeStatement at hplace
  split at hplace
  · obtain ⟨directive, -, happly, -⟩ := apply_of_placeDirective hplace
    exact hstable.directive h happly
  · obtain ⟨entry, -, hroom, rfl⟩ := entry_of_placeInstruction hplace
    exact hstable.entry entry h hroom

theorem afterLabel (hstable : Stable P) (h : P layout)
    (hstatement : (match source.statement with
      | some statement => layout.placeStatement statement source.number
      | none => .ok layout) = .ok layout') : P layout' := by
  cases hline : source.statement with
  | some statement =>
      rw [hline] at hstatement
      exact hstable.placeStatement h hstatement
  | none =>
      rw [hline] at hstatement
      cases hstatement
      exact h

theorem foldlM (hstable : Stable P) (h : P layout)
    (hfold : lines.foldlM place layout = .ok layout') : P layout' := by
  apply foldlM_induction _ h hfold
  intro line _ layout layout' h hplace
  apply place_induction _ _ h hplace
  · exact fun _ _ _ _ h hlabel => hstable.label h hlabel
  · exact fun _ _ _ _ h hstatement => hstable.placeStatement h hstatement

end Stable

/-! ## Sections that have to stay -/

/-- A section that is not empty starts in the later layout where it starts in this one. -/
structure Fixes (layout later : Layout) : Prop where
  text : layout.entries ≠ #[] → later.entries ≠ #[] ∧ later.textStart = layout.textStart
  data : layout.data ≠ #[] → later.data ≠ #[] ∧ later.dataStart = layout.dataStart

theorem Fixes.refl (layout : Layout) : layout.Fixes layout where
  text hentries := ⟨hentries, rfl⟩
  data hdata := ⟨hdata, rfl⟩

theorem Fixes.applied {directive : Directive} (hfixes : layout.Fixes middle)
    (happlied : middle.Applied directive layout') : layout.Fixes layout' := by
  cases happlied with
  | enterData | enterText | constant => exact ⟨hfixes.text, hfixes.data⟩
  | moveText target hempty _ =>
      refine ⟨fun hentries => ?_, hfixes.data⟩
      exact absurd hempty (hfixes.text hentries).1
  | moveData target hempty _ =>
      refine ⟨hfixes.text, fun hdata => ?_⟩
      exact absurd hempty (hfixes.data hdata).1
  | emit _ data _ _ hprefix =>
      refine ⟨hfixes.text, fun hdata => ⟨fun hempty => ?_, (hfixes.data hdata).2⟩⟩
      have hnil : middle.data.toList = [] := by
        dsimp only at hempty
        rw [hempty] at hprefix
        exact List.prefix_nil.mp hprefix
      exact (hfixes.data hdata).1 (Array.toList_eq_nil_iff.mp hnil)

theorem stable_fixes (layout : Layout) : Stable layout.Fixes where
  label hfixes hplace := by
    obtain ⟨symbols, -, rfl⟩ := symbols_of_placeLabel hplace
    exact ⟨hfixes.text, hfixes.data⟩
  entry entry hfixes _ := by
    refine ⟨fun hentries => ⟨?_, (hfixes.text hentries).2⟩, hfixes.data⟩
    exact Array.push_ne_empty
  directive hfixes happly := hfixes.applied (applied_of_apply happly)

/-! ## The value in the end -/

/-- Whether the symbols of a kind can still be moved. -/
def canMove (layout : Layout) : SymbolKind → Bool
  | .code => layout.entries.isEmpty
  | .data => layout.data.isEmpty
  | .constant => false

/-- Where the section of a kind of labels starts. -/
def start (layout : Layout) : SymbolKind → Int
  | .code => layout.textStart
  | .data => layout.dataStart
  | .constant => 0

theorem shift_eq (kind : SymbolKind) :
    layout.shift layout' kind = layout'.start kind - layout.start kind := by
  cases kind with
  | code | data => rfl
  | constant => rfl

theorem Fixes.shift_eq_zero {kind : SymbolKind} (hfixes : layout.Fixes layout')
    (hstays : layout.canMove kind = false) : layout.shift layout' kind = 0 := by
  cases kind with
  | code =>
      have hentries : layout.entries ≠ #[] := by simpa [canMove] using hstays
      rw [shift, (hfixes.text hentries).2, Int.sub_self]
  | data =>
      have hdata : layout.data ≠ #[] := by simpa [canMove] using hstays
      rw [shift, (hfixes.data hdata).2, Int.sub_self]
  | constant => rfl

theorem Anchored.value_eq_start {symbol : Symbol} (hanchored : layout.Anchored)
    (hmem : symbol ∈ layout.symbols.symbols) (hmoves : layout.canMove symbol.kind = true) :
    symbol.value = layout.start symbol.kind := by
  cases hkind : symbol.kind with
  | code =>
      have hentries : layout.entries = #[] := by simpa [canMove, hkind] using hmoves
      exact hanchored.code symbol hmem hkind hentries
  | data =>
      have hdata : layout.data = #[] := by simpa [canMove, hkind] using hmoves
      exact hanchored.data symbol hmem hkind hdata
  | constant => simp [canMove, hkind] at hmoves

theorem apply_of_afterLabel {line : SourceLine} {directive : Directive}
    (hdirective : line.directive? = some directive)
    (hstatement : (match line.statement with
      | some statement => layout.placeStatement statement line.number
      | none => .ok layout) = .ok layout') :
    ∃ column, layout.apply directive line.number column line.arguments = .ok layout' := by
  cases hline : line.statement with
  | none => simp [SourceLine.directive?, hline] at hdirective
  | some statement =>
      rw [hline] at hstatement
      have hplace : layout.placeStatement statement line.number = .ok layout' := hstatement
      simp only [SourceLine.directive?, hline] at hdirective
      split at hdirective
      next hpoint =>
        rw [placeStatement, if_pos hpoint] at hplace
        obtain ⟨found, hfound, happly, -⟩ := apply_of_placeDirective hplace
        obtain rfl := Option.some.inj (hfound.symm.trans hdirective)
        refine ⟨statement.column, ?_⟩
        rw [SourceLine.arguments, hline]
        exact happly
      · cases hdirective

/-- A symbol that has been read is carried to the end as its section is. -/
theorem reads_of_directive
    {before after : List SourceLine} {line : SourceLine} {directive : Directive}
    (hlayout : ofLines (before ++ line :: after) = .ok layout')
    (hdirective : line.directive? = some directive)
    (hpiece : piece ∈ directive.numbers line.arguments)
    (hname : Text.isIdentifier piece.text = true) :
    ∃ early layout symbol,
      ofLines before = .ok early ∧ early.atStatement line = .ok layout ∧
        layout.Reads line.number directive piece symbol.value ∧
          symbol ∈ layout.symbols.symbols ∧
            layout'.symbols.get? piece.text = some (layout.carry layout' symbol) ∧
              layout.Anchored ∧ layout.Fixes layout' := by
  unfold ofLines at hlayout
  rw [List.foldlM_append] at hlayout
  obtain ⟨early, hearly, hlater⟩ := exists_of_bind_eq_ok hlayout
  rw [List.foldlM_cons] at hlater
  obtain ⟨next, hplace, hafter⟩ := exists_of_bind_eq_ok hlater
  obtain ⟨layout, hlabel, hstatement⟩ := halves_of_place hplace
  have hanchored : layout.Anchored := by
    have hstart := ((places_of_foldlM hearly).keeps anchored_empty).1
    cases hline : line.label with
    | some label =>
        rw [hline] at hlabel
        exact (keeps_placeLabel hlabel hstart).1
    | none =>
        rw [hline] at hlabel
        cases hlabel
        exact hstart
  have hrest := (places_after_label hstatement).keeps.trans (places_of_foldlM hafter).keeps
  have hfixes : layout.Fixes layout' := by
    have hnext := (stable_fixes layout).afterLabel (.refl layout) hstatement
    exact (stable_fixes layout).foldlM hnext hafter
  obtain ⟨column, happly⟩ := apply_of_afterLabel hdirective hstatement
  obtain ⟨value, hreads⟩ := reads_of_apply happly hpiece
  obtain ⟨symbol, hget, rfl⟩ := symbol_of_reads hname hreads
  have hcarried := (hrest hanchored).2.symbols piece.text symbol hget
  exact ⟨early, layout, symbol, hearly, hlabel, hreads, SymbolTable.mem_of_get? hget, hcarried,
    hanchored, hfixes⟩

end Layout

namespace Program

/-- Where the section of a kind of labels starts in the end. -/
def start (program : Program) : SymbolKind → Int
  | .code => program.textStart.toNat
  | .data => program.dataStart.toNat
  | .constant => 0

end Program

theorem Layout.start_of_program {layout : Layout} {lines : List SourceLine} {program : Program}
    (hlayout : ofLines lines = .ok layout) (hprogram : layout.program = .ok program)
    (kind : SymbolKind) : program.start kind = layout.start kind := by
  obtain ⟨-, htext, hdata⟩ := starts_of_ofLines hlayout
  obtain ⟨instructions, -, rfl⟩ := of_program hprogram
  cases kind with
  | code => rw [Program.start, start, htext]
  | data => rw [Program.start, start, hdata]
  | constant => rfl

/-- A directive that names a symbol reads the value that the symbol has in the end, unless it is
a label of a section that is still empty there.  Then what it reads is where the section starts
at that time, while the label comes to stand where the section starts in the end. -/
theorem directives_read_values_of_their_time
    (source : Text) (program : Program) (before after : List SourceLine) (line : SourceLine)
    (directive : Directive) (piece : Piece)
    (hassemble : assemble source = .ok program)
    (hlines : SourceLine.ofText source = before ++ line :: after)
    (hdirective : line.directive? = some directive)
    (hpiece : piece ∈ directive.numbers line.arguments)
    (hname : Text.isIdentifier piece.text = true) :
    ∃ early layout used symbol,
      Layout.ofLines before = .ok early ∧ early.atStatement line = .ok layout ∧
        layout.Reads line.number directive piece used ∧
          program.symbols.get? piece.text = some symbol ∧
            (layout.canMove symbol.kind = false → used = symbol.value) ∧
              (layout.canMove symbol.kind = true →
                used = layout.start symbol.kind ∧ symbol.value = program.start symbol.kind) := by
  obtain ⟨final, hfinal, hprogram⟩ := exists_of_bind_eq_ok hassemble
  have hlayout : Layout.ofLines (before ++ line :: after) = .ok final := by
    rw [← hlines]
    exact hfinal
  obtain ⟨early, layout, symbol, hearly, hlabel, hreads, hmem, hget, hanchored, hfixes⟩ :=
    Layout.reads_of_directive hlayout hdirective hpiece hname
  have hsymbols : program.symbols = final.symbols := by
    obtain ⟨instructions, -, rfl⟩ := Layout.of_program hprogram
    rfl
  refine ⟨early, layout, symbol.value, layout.carry final symbol, hearly, hlabel, hreads,
    hsymbols ▸ hget, ?_, ?_⟩
  · intro hstays
    have hshift : layout.shift final symbol.kind = 0 := hfixes.shift_eq_zero hstays
    rw [Layout.carry_of_shift_eq_zero hshift]
  · intro hmoves
    have hvalue : symbol.value = layout.start symbol.kind :=
      hanchored.value_eq_start hmem hmoves
    refine ⟨hvalue, ?_⟩
    have hstart : program.start symbol.kind = final.start symbol.kind :=
      Layout.start_of_program hlayout hprogram symbol.kind
    simp only [Layout.carry]
    rw [Layout.shift_eq, hvalue, hstart]
    omega

/-- A label that is read once before its section moves, and once after. -/
def movedSource : Text :=
  "entry:\n.DATA\ntable: .WORD entry\n.TEXT\n.ORG 4\nNOP\n.EQU begin, entry".toList

theorem assemble_movedSource :
    ∃ program,
      assemble movedSource = .ok program ∧ program.data = #[0, 0] ∧
        program.symbols.value? "entry".toList = some 4 := by
  have hresult : (assemble movedSource).toOption.map
      (fun program => (program.data, program.symbols.value? "entry".toList)) =
        some (#[0, 0], some 4) := by
    decide +kernel
  cases hassemble : assemble movedSource with
  | error rejection =>
      rw [hassemble] at hresult
      cases hresult
  | ok program =>
      rw [hassemble] at hresult
      obtain ⟨hdata, hvalue⟩ := Prod.mk.inj (Option.some.inj hresult)
      exact ⟨program, rfl, hdata, hvalue⟩

/-- The last line of the source above reads the label where it is in the end. -/
theorem directives_read_values_of_their_time_moved :
    ∃ program early,
      assemble movedSource = .ok program ∧
        Layout.ofLines ((SourceLine.ofText movedSource).take 6) = .ok early ∧
          early.Reads 7 .equ ⟨"entry".toList, 13⟩ 4 ∧
            program.symbols.value? "entry".toList = some 4 := by
  obtain ⟨program, hassemble, -, hvalue⟩ := assemble_movedSource
  obtain ⟨early, layout, used, symbol, hearly, hlabel, hreads, hget, hstays, -⟩ :=
    directives_read_values_of_their_time movedSource program
      ((SourceLine.ofText movedSource).take 6) []
      { number := 7, code := ".EQU begin, entry".toList, label := none
        statement := some ⟨".EQU begin, entry".toList, 1⟩ }
      .equ ⟨"entry".toList, 13⟩ hassemble (by decide +kernel) (by decide +kernel)
      (by decide +kernel) (by decide +kernel)
  cases hlabel
  have hplaced : (Layout.ofLines ((SourceLine.ofText movedSource).take 6)).toOption.map
      (fun layout => (layout.canMove .code, layout.canMove .data)) = some (false, false) := by
    decide +kernel
  rw [hearly] at hplaced
  obtain ⟨hcode, hdata⟩ := Prod.mk.inj (Option.some.inj hplaced)
  have hfixed : early.canMove symbol.kind = false := by
    cases symbol.kind with
    | code => exact hcode
    | data => exact hdata
    | constant => rfl
  have hused : used = 4 := by
    rw [SymbolTable.value?, hget] at hvalue
    rw [hstays hfixed]
    exact Option.some.inj hvalue
  exact ⟨program, early, hassemble, hearly, hused ▸ hreads, hvalue⟩

/-- Its third line has read the same label before it moved, and emits where it was. -/
theorem word_keeps_old_value_moved :
    ∃ program early layout,
      assemble movedSource = .ok program ∧
        Layout.ofLines ((SourceLine.ofText movedSource).take 2) = .ok early ∧
          early.placeLabel ⟨"table".toList, 1⟩ 3 = .ok layout ∧
            layout.Reads 3 .word ⟨"entry".toList, 14⟩ 0 ∧
              program.data = #[0, 0] ∧
                program.symbols.value? "entry".toList = some 4 := by
  obtain ⟨program, hassemble, hdata, hvalue⟩ := assemble_movedSource
  have hread : (do
      let early ← Layout.ofLines ((SourceLine.ofText movedSource).take 2)
      let layout ← early.placeLabel ⟨"table".toList, 1⟩ 3
      layout.argument 3 Literal.minValue Literal.maxValue ⟨"entry".toList, 14⟩) = .ok 0 := by
    rfl
  obtain ⟨early, hearly, hlater⟩ := exists_of_bind_eq_ok hread
  obtain ⟨layout, hlabel, hargument⟩ := exists_of_bind_eq_ok hlater
  exact ⟨program, early, layout, hassemble, hearly, hlabel, hargument, hdata, hvalue⟩

end WordMachine
