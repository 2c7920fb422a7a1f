import WordMachine.Proofs.SourceLimits

/-!
# Where a rejection stands

Every rejection of a source text is at one of its lines and at the column of a piece
of that line: the label, the statement, an argument of the statement, or a word of
these.  Placing a line rejects at that line; reading operands and checking names
rejects at the lines that the instructions come from.  No other failure comes up on the
way before a source is too long for its bytes to be counted.
-/

namespace WordMachine

open Text

/-! ## Computations that fail in one way -/

section

variable {ε α β : Type} {P : ε → Prop}

/-- Where the computation fails, its error is one of these. -/
def FailsWith (P : ε → Prop) (result : Except ε α) : Prop :=
  ∀ error, result = .error error → P error

theorem failsWith_ok (value : α) : FailsWith P (.ok value : Except ε α) := nofun

theorem failsWith_error {error : ε} (herror : P error) :
    FailsWith P (.error error : Except ε α) := by
  intro error' heq
  cases heq
  exact herror

namespace FailsWith

theorem bind {first : Except ε α} {rest : α → Except ε β} (hfirst : FailsWith P first)
    (hrest : ∀ value, first = .ok value → FailsWith P (rest value)) :
    FailsWith P (first >>= rest) := by
  cases first with
  | error error => exact failsWith_error (hfirst error rfl)
  | ok value => exact hrest value rfl

theorem map {f : α → β} {result : Except ε α} (hresult : FailsWith P result) :
    FailsWith P (f <$> result) :=
  fun error herror => hresult error (error_of_map_eq_error herror)

theorem mapM {items : List α} {read : α → Except ε β}
    (hread : ∀ item ∈ items, FailsWith P (read item)) : FailsWith P (items.mapM read) := by
  induction items with
  | nil => exact failsWith_ok []
  | cons item items ih =>
      rw [List.mapM_cons]
      refine (hread item List.mem_cons_self).bind fun _ _ => ?_
      refine (ih fun later hlater => hread later (List.mem_cons_of_mem _ hlater)).bind fun _ _ => ?_
      exact failsWith_ok _

theorem forM {items : List α} {check : α → Except ε Unit}
    (hcheck : ∀ item ∈ items, FailsWith P (check item)) : FailsWith P (items.forM check) := by
  induction items with
  | nil => exact failsWith_ok ()
  | cons item items ih =>
      rw [List.forM]
      refine (hcheck item List.mem_cons_self).bind fun _ _ => ?_
      exact ih fun later hlater => hcheck later (List.mem_cons_of_mem _ hlater)

/-- Steps that keep an invariant need to fail in this way only where it holds. -/
theorem foldlM {items : List α} {step : β → α → Except ε β} {I : β → Prop} {state : β}
    (hstep : ∀ item ∈ items, ∀ state, I state → FailsWith P (step state item))
    (hkeep : ∀ item ∈ items, ∀ state next, I state → step state item = .ok next → I next)
    (hstart : I state) : FailsWith P (items.foldlM step state) := by
  induction items generalizing state with
  | nil => exact failsWith_ok state
  | cons item items ih =>
      rw [List.foldlM_cons]
      refine (hstep item List.mem_cons_self state hstart).bind fun next hnext => ?_
      exact ih (fun later hlater => hstep later (List.mem_cons_of_mem _ hlater))
        (fun later hlater => hkeep later (List.mem_cons_of_mem _ hlater))
        (hkeep item List.mem_cons_self state next hstart hnext)

end FailsWith

end

/-! ## Rejections at a piece of a line -/

/-- The rejection is at a line and at the column of one of the pieces. -/
def Rejection.At (line : Nat) (pieces : List Piece) (rejection : Rejection) : Prop :=
  rejection.line = line ∧ ∃ piece ∈ pieces, rejection.column = piece.column

/-- The failure is such a rejection, or a breakdown where there can be one. -/
def AssemblyFailure.At (line : Nat) (pieces : List Piece) (breaks : Prop) :
    AssemblyFailure → Prop
  | .rejected rejection => rejection.At line pieces
  | .breakdown _ => breaks

namespace Layout

variable {layout : Layout} {line : Nat} {piece : Piece} {pieces : List Piece} {breaks : Prop}

theorem at_of_mem (hpiece : piece ∈ pieces) (cause : AssemblyError) (suggestion : Option Text) :
    AssemblyFailure.At line pieces breaks
      (.rejected { cause, line, column := piece.column, suggestion }) :=
  ⟨rfl, piece, hpiece, rfl⟩

theorem failsWith_reject {α : Type} (hpiece : piece ∈ pieces) (cause : AssemblyError) :
    FailsWith (AssemblyFailure.At line pieces breaks)
      (reject cause line piece.column : Except AssemblyFailure α) :=
  failsWith_error (at_of_mem hpiece cause none)

theorem failsWith_checkedCursor (hcounted : breaks ∨ layout.dataEnd < 4294967296) :
    FailsWith (AssemblyFailure.At line pieces breaks) layout.checkedCursor := by
  unfold checkedCursor
  split
  · exact failsWith_ok _
  next hwide =>
    refine failsWith_error (hcounted.resolve_right fun hends => hwide ?_)
    exact Nat.lt_of_le_of_lt layout.dataCursor_le_dataEnd hends

theorem failsWith_define (hpiece : piece ∈ pieces) (value : Int) (kind : SymbolKind) :
    FailsWith (AssemblyFailure.At line pieces breaks) (layout.define piece line value kind) := by
  unfold define
  split
  · exact failsWith_ok _
  · exact failsWith_reject hpiece _

theorem failsWith_placeLabel (hpiece : piece ∈ pieces)
    (hcounted : breaks ∨ layout.dataEnd < 4294967296) :
    FailsWith (AssemblyFailure.At line pieces breaks) (layout.placeLabel piece line) := by
  unfold placeLabel
  split
  · exact failsWith_reject hpiece _
  · split
    · refine (failsWith_checkedCursor hcounted).bind fun cursor _ => ?_
      split
      · exact failsWith_reject hpiece _
      · exact failsWith_define hpiece _ _
    · exact failsWith_define hpiece _ _

theorem failsWith_placeInstruction (hpiece : piece ∈ pieces) :
    FailsWith (AssemblyFailure.At line pieces breaks) (layout.placeInstruction piece line) := by
  unfold placeInstruction
  dsimp only
  split
  · exact failsWith_error (at_of_mem hpiece _ _)
  · split
    · exact failsWith_reject hpiece _
    · split
      · exact failsWith_reject hpiece _
      · exact failsWith_ok _

theorem failsWith_argument (hpiece : piece ∈ pieces) (min max : Int) :
    FailsWith (AssemblyFailure.At line pieces breaks) (layout.argument line min max piece) := by
  unfold argument
  dsimp only
  split
  · exact failsWith_ok _
  · exact failsWith_reject hpiece _

theorem failsWith_stringArgument (hpiece : piece ∈ pieces) :
    FailsWith (AssemblyFailure.At line pieces breaks) (stringArgument line piece) := by
  unfold stringArgument
  split
  · exact failsWith_ok _
  · exact failsWith_reject hpiece _

theorem failsWith_emitEach {wrongArguments : AssemblyFailure}
    {bytes : Piece → Except AssemblyFailure (List UInt8)} {arguments : List Piece}
    (hwrong : wrongArguments.At line pieces breaks)
    (hbytes : ∀ argument ∈ arguments,
      FailsWith (AssemblyFailure.At line pieces breaks) (bytes argument)) :
    FailsWith (AssemblyFailure.At line pieces breaks)
      (layout.emitEach wrongArguments bytes arguments) := by
  unfold emitEach
  split
  · exact failsWith_error hwrong
  · exact (FailsWith.mapM hbytes).bind fun _ _ => failsWith_ok _

theorem failsWith_origin (hpiece : piece ∈ pieces)
    (hcounted : breaks ∨ layout.dataEnd < 4294967296) (target : Nat) :
    FailsWith (AssemblyFailure.At line pieces breaks)
      (layout.origin target line piece.column) := by
  unfold origin
  split
  · split
    · exact failsWith_reject hpiece _
    · exact failsWith_ok _
  · split
    · exact failsWith_ok _
    · refine (failsWith_checkedCursor hcounted).bind fun cursor _ => ?_
      split
      · exact failsWith_reject hpiece _
      · exact failsWith_ok _

theorem mem_of_nameAndValue? {arguments : List Piece} {name value : Piece}
    (hpair : nameAndValue? arguments = some (name, value)) :
    name ∈ arguments.flatMap (fun argument => argument :: argument.words) ∧
      value ∈ arguments.flatMap (fun argument => argument :: argument.words) := by
  unfold nameAndValue? at hpair
  split at hpair
  · cases hpair
    simp
  next both =>
    split at hpair
    next hsplit =>
      cases hpair
      simp [Piece.words, hsplit]
    · cases hpair
  · cases hpair

theorem failsWith_apply {directive : Directive} {arguments : List Piece} (hpiece : piece ∈ pieces)
    (harguments : ∀ argument ∈ arguments.flatMap fun argument => argument :: argument.words,
      argument ∈ pieces) (hcounted : breaks ∨ layout.dataEnd < 4294967296) :
    FailsWith (AssemblyFailure.At line pieces breaks)
      (layout.apply directive line piece.column arguments) := by
  have hwrong : ∀ directive, AssemblyFailure.At line pieces breaks
      (.rejected { cause := .directiveArguments directive, line, column := piece.column }) :=
    fun _ => at_of_mem hpiece _ _
  have hmem : ∀ argument ∈ arguments, argument ∈ pieces := fun argument hargument =>
    harguments argument (List.mem_flatMap.mpr ⟨argument, hargument, List.mem_cons_self⟩)
  unfold apply
  cases directive with
  | data | text =>
      dsimp only
      split
      · exact failsWith_ok _
      · exact failsWith_error (hwrong _)
  | org =>
      dsimp only
      split
      next argument =>
        refine (failsWith_argument (hmem argument (by simp)) _ _).bind fun _ _ => ?_
        exact failsWith_origin hpiece hcounted _
      · exact failsWith_error (hwrong _)
  | equ =>
      dsimp only
      split
      · exact failsWith_error (hwrong _)
      next name value hpair =>
        obtain ⟨hname, hvalue⟩ := mem_of_nameAndValue? hpair
        split
        · exact failsWith_reject (harguments name hname) _
        · refine (failsWith_argument (harguments value hvalue) _ _).bind fun _ _ => ?_
          exact failsWith_define (harguments name hname) _ _
  | byte | word =>
      exact failsWith_emitEach (hwrong _) fun argument hargument =>
        (failsWith_argument (hmem argument hargument) _ _).map
  | ascii =>
      exact failsWith_emitEach (hwrong _) fun argument hargument =>
        failsWith_stringArgument (hmem argument hargument)
  | asciz =>
      exact failsWith_emitEach (hwrong _) fun argument hargument =>
        (failsWith_stringArgument (hmem argument hargument)).map
  | space =>
      dsimp only
      split
      next argument =>
        refine (failsWith_argument (hmem argument (by simp)) _ _).bind fun _ _ => ?_
        exact failsWith_ok _
      · exact failsWith_error (hwrong _)
  | align =>
      dsimp only
      split
      next argument =>
        refine (failsWith_argument (hmem argument (by simp)) _ _).bind fun _ _ => ?_
        split
        · exact (failsWith_checkedCursor hcounted).bind fun _ _ => failsWith_ok _
        · exact failsWith_reject (hmem argument (by simp)) _
      · exact failsWith_error (hwrong _)

theorem failsWith_operandPieces {rest : Option Piece}
    (hsplits : breaks ∨ operandPieces rest = .ok (cutOperands rest)) :
    FailsWith (AssemblyFailure.At line pieces breaks) (operandPieces rest) := by
  rcases hsplits with hbreaks | hsplit
  · unfold operandPieces
    split
    · exact failsWith_ok _
    · split
      · exact failsWith_ok _
      · exact failsWith_error hbreaks
  · rw [hsplit]
    exact failsWith_ok _

theorem failsWith_placeDirective (hpiece : piece ∈ pieces)
    (harguments : ∀ argument ∈ (cutOperands piece.splitWord.2).flatMap
      fun argument => argument :: argument.words, argument ∈ pieces)
    (hsplits : breaks ∨ operandPieces piece.splitWord.2 = .ok (cutOperands piece.splitWord.2))
    (hcounted : breaks ∨ layout.dataEnd < 4294967296)
    (happlied : breaks ∨ ∀ directive layout',
      layout.apply directive line piece.column (cutOperands piece.splitWord.2) = .ok layout' →
        layout'.dataEnd < 4294967296) :
    FailsWith (AssemblyFailure.At line pieces breaks) (layout.placeDirective piece line) := by
  unfold placeDirective
  dsimp only
  split
  · exact failsWith_error (at_of_mem hpiece _ _)
  · split
    · exact failsWith_reject hpiece _
    · refine (failsWith_operandPieces hsplits).bind fun arguments hpieces => ?_
      obtain rfl := eq_cutOperands hpieces
      refine (failsWith_apply hpiece harguments hcounted).bind fun applied happly => ?_
      have hends : breaks ∨ applied.dataEnd < 4294967296 :=
        happlied.imp_right fun hall => hall _ applied happly
      refine (failsWith_checkedCursor hends).bind fun cursor _ => ?_
      split
      · exact failsWith_reject hpiece _
      · exact failsWith_ok _

theorem failsWith_placeStatement {line : SourceLine} (hstatement : line.statement = some piece)
    (hfits : breaks ∨ line.Short ∧ layout.dataEnd ≤ addressSpace) :
    FailsWith (AssemblyFailure.At line.number line.pieces breaks)
      (layout.placeStatement piece line.number) := by
  have hmem := SourceLine.statement_mem_pieces hstatement
  unfold placeStatement
  split
  · refine failsWith_placeDirective hmem (fun argument hargument => ?_) ?_ ?_ ?_
    · rw [← SourceLine.arguments_eq hstatement] at hargument
      exact SourceLine.mem_pieces_of_arguments hargument
    · exact hfits.imp_right fun hfits => operandPieces_of_short hfits.1 hstatement
    · exact hfits.imp_right fun hfits => dataEnd_lt_of_le hfits.2
    · exact hfits.imp_right fun hfits directive layout' happly =>
        dataEnd_lt_of_apply hfits.1 hstatement hfits.2 happly
  · exact failsWith_placeInstruction hmem

theorem place_eq (layout : Layout) (line : SourceLine) :
    layout.place line =
      (layout.atStatement line >>= fun placed =>
        match line.statement with
        | some statement => placed.placeStatement statement line.number
        | none => .ok placed) := by
  rw [place, atStatement]
  cases line.label with
  | none => rfl
  | some label => rfl

theorem dataEnd_atStatement {line : SourceLine} {placed : Layout}
    (hlabel : layout.atStatement line = .ok placed) : placed.dataEnd = layout.dataEnd := by
  unfold atStatement at hlabel
  split at hlabel
  · obtain ⟨symbols, -, rfl⟩ := symbols_of_placeLabel hlabel
    rfl
  · cases hlabel
    rfl

theorem failsWith_place {line : SourceLine}
    (hfits : breaks ∨ line.Short ∧ layout.dataEnd ≤ addressSpace) :
    FailsWith (AssemblyFailure.At line.number line.pieces breaks) (layout.place line) := by
  rw [place_eq]
  refine FailsWith.bind ?_ fun placed hplaced => ?_
  · unfold atStatement
    split
    next label hlabel =>
      exact failsWith_placeLabel (SourceLine.label_mem_pieces hlabel)
        (hfits.imp_right fun hfits => dataEnd_lt_of_le hfits.2)
    · exact failsWith_ok _
  · rw [← dataEnd_atStatement hplaced] at hfits
    split
    next statement hstatement => exact failsWith_placeStatement hstatement hfits
    · exact failsWith_ok _

/-! ## Rejections of what is resolved -/

theorem failsWith_operand (hpiece : piece ∈ pieces) :
    FailsWith (AssemblyFailure.At line pieces breaks) (layout.operand line piece) := by
  unfold operand
  split
  · exact failsWith_reject hpiece _
  · split
    · exact failsWith_ok _
    · exact failsWith_reject hpiece _

theorem failsWith_instruction {entry : Entry} (hstatement : piece ∈ pieces)
    (hentry : entryOf? line piece = some entry)
    (harguments : ∀ argument ∈ cutOperands piece.splitWord.2, argument ∈ pieces)
    (hsplits : breaks ∨ operandPieces piece.splitWord.2 = .ok (cutOperands piece.splitWord.2))
    (index : Nat) :
    FailsWith (AssemblyFailure.At line pieces breaks) (layout.instruction entry index) := by
  unfold entryOf? at hentry
  obtain ⟨opcode, -, rfl⟩ := Option.map_eq_some_iff.mp hentry
  unfold Layout.instruction
  refine (failsWith_operandPieces hsplits).bind fun arguments hpieces => ?_
  obtain rfl := eq_cutOperands hpieces
  refine (FailsWith.mapM fun argument hargument =>
    failsWith_operand (harguments argument hargument)).bind fun _ _ => ?_
  split
  next error herror =>
    refine failsWith_error ⟨rfl, ?_⟩
    dsimp only
    unfold signatureColumn
    split
    · exact ⟨piece, hstatement, rfl⟩
    · split
      next argument hargument =>
        exact ⟨argument, harguments argument (List.mem_of_getElem? hargument), rfl⟩
      · exact ⟨piece, hstatement, rfl⟩
  · exact failsWith_ok _

theorem failsWith_validate {instruction : Instruction} (hstatement : piece ∈ pieces)
    (hline : instruction.line = line) (hcolumn : instruction.column = piece.column) :
    FailsWith (AssemblyFailure.At line pieces breaks) (layout.validate instruction) := by
  subst hline
  refine FailsWith.forM fun name _ => ?_
  unfold validateName
  rw [hcolumn]
  split
  · exact failsWith_reject hstatement _
  · split
    · exact failsWith_reject hstatement _
    · exact failsWith_ok _

/-- A statement that has become an entry is that of a line, with the arguments of the line. -/
theorem exists_line_of_entry {lines : List SourceLine} {entry : Entry} {index : Nat}
    (hlayout : ofLines lines = .ok layout) (hentry : layout.entries[index]? = some entry) :
    ∃ line ∈ lines, ∃ statement, line.statement = some statement ∧
      entryOf? line.number statement = some entry := by
  obtain ⟨number, statement, hstatement, hof⟩ := exists_statement_of_entry hlayout hentry
  obtain ⟨line, hline, rfl, hmem⟩ :=
    SourceLine.exists_of_mem_instructions (List.mem_of_getElem? hstatement)
  exact ⟨line, hline, statement, hmem, hof⟩

/-- The rejection is at a piece of one of the lines. -/
theorem failsWith_program {lines : List SourceLine} (hlayout : ofLines lines = .ok layout)
    (hshort : breaks ∨ ∀ line ∈ lines, line.Short) :
    FailsWith (fun failure => ∃ line ∈ lines, failure.At line.number line.pieces breaks)
      layout.program := by
  unfold program
  refine FailsWith.bind ?_ fun instructions hresolve => ?_
  · refine FailsWith.mapM fun (entry, index) hmem => ?_
    have hentry : layout.entries[index]? = some entry := by
      simpa using List.mk_mem_zipIdx_iff_getElem?.mp hmem
    obtain ⟨line, hline, statement, hstatement, hof⟩ := exists_line_of_entry hlayout hentry
    intro failure hfailure
    refine ⟨line, hline, failsWith_instruction (SourceLine.statement_mem_pieces hstatement) hof
      (fun argument hargument => ?_) ?_ index failure hfailure⟩
    · rw [← SourceLine.arguments_eq hstatement] at hargument
      exact SourceLine.mem_pieces_of_arguments
        (List.mem_flatMap.mpr ⟨argument, hargument, List.mem_cons_self⟩)
    · exact hshort.imp_right fun hall => operandPieces_of_short (hall line hline) hstatement
  · refine FailsWith.bind (FailsWith.forM fun instruction hmem => ?_) fun _ _ => failsWith_ok _
    obtain ⟨index, hindex⟩ := List.getElem?_of_mem hmem
    obtain ⟨entry, hentry, hread⟩ := (of_resolve hresolve).2 index instruction hindex
    obtain ⟨line, hline, statement, hstatement, hof⟩ := exists_line_of_entry hlayout hentry
    obtain ⟨-, hreads⟩ := readsAs_of_instruction hof hread
    intro failure hfailure
    exact ⟨line, hline, failsWith_validate (SourceLine.statement_mem_pieces hstatement)
      hreads.line hreads.column failure hfailure⟩

end Layout

/-- A source is rejected at one of its lines and at a piece of that line.  Only one that is too
long breaks the assembler down. -/
theorem failsWith_assemble (source : Text) :
    FailsWith
      (fun failure =>
        ∃ line ∈ SourceLine.ofText source,
          failure.At line.number line.pieces (sourceLimit ≤ width source))
      (assemble source) := by
  have hshort : sourceLimit ≤ width source ∨ ∀ line ∈ SourceLine.ofText source, line.Short := by
    refine (Nat.lt_or_ge (width source) sourceLimit).symm.imp_right fun hsource line hline => ?_
    exact SourceLine.short_of_mem_ofText hsource hline
  refine FailsWith.bind ?_ fun layout hlayout => Layout.failsWith_program hlayout hshort
  -- until the source is too long, the data ends inside memory after every line
  refine FailsWith.foldlM (I := fun layout =>
    sourceLimit ≤ width source ∨ layout.dataEnd ≤ addressSpace) ?_ ?_ (.inr (by decide))
  · intro line hline layout hends failure hfailure
    refine ⟨line, hline, Layout.failsWith_place ?_ failure hfailure⟩
    exact hshort.elim .inl fun hall => hends.imp_right fun hends => ⟨hall line hline, hends⟩
  · intro line hline layout next hends hplace
    rcases hshort with hlong | hall
    · exact .inl hlong
    · exact hends.imp_right fun hends => Layout.dataEnd_le_of_place (hall line hline) hends hplace

end WordMachine
