import WordMachine.Assembly.Layout
import WordMachine.Proofs.RecasedLines
import WordMachine.Proofs.RecasedOperands

/-!
# Layout of recased lines

Recased lines are placed alike.  Between the lines the layouts have the same bytes
and cursors, tables that are equal when folded, and entries whose operands are
still recased texts; the first fault, if there is one, is of the same code and at
the same place.
-/

namespace WordMachine

open Text

/-- Rejections with the same code at the same line and column. -/
structure Rejection.SamePlace (rejection rejection' : Rejection) : Prop where
  code_eq : rejection.cause.code = rejection'.cause.code
  line_eq : rejection.line = rejection'.line
  column_eq : rejection.column = rejection'.column

/-- Rejections at the same place, or the same breakdown. -/
inductive AssemblyFailure.SamePlace : AssemblyFailure → AssemblyFailure → Prop
  | rejected {rejection rejection' : Rejection} :
      rejection.SamePlace rejection' → SamePlace (.rejected rejection) (.rejected rejection')
  | breakdown (message : String) : SamePlace (.breakdown message) (.breakdown message)

theorem AssemblyFailure.SamePlace.refl (failure : AssemblyFailure) : failure.SamePlace failure := by
  cases failure with
  | rejected rejection => exact .rejected ⟨rfl, rfl, rfl⟩
  | breakdown message => exact .breakdown message

/-! ## Symbols -/

namespace SymbolTable

variable {table table' : SymbolTable} {symbol symbol' : Symbol}

/-- A name that is taken up to spelling is taken in both tables. -/
theorem alike_insert (htable : table.folded = table'.folded)
    (hsymbol : symbol.folded = symbol'.folded) :
    Alike (fun first first' => first.folded = first'.folded)
      (fun next next' => next.folded = next'.folded)
      (table.insert symbol) (table'.insert symbol') := by
  have hget := rel_get? htable (congrArg Symbol.name hsymbol)
  unfold insert
  generalize table.get? symbol.name = found at *
  generalize table'.get? symbol'.name = found' at *
  cases hget with
  | none =>
      refine .ok ?_
      have hsymbols : table.symbols.map Symbol.folded = table'.symbols.map Symbol.folded :=
        congrArg SymbolTable.symbols htable
      simp [folded, hsymbols, hsymbol]
  | some hfirst => exact .error hfirst

theorem folded_rebase (table : SymbolTable) (kind : SymbolKind) (source target : Int) :
    (table.rebase kind source target).folded = table.folded.rebase kind source target := by
  unfold rebase folded
  rw [List.map_map, List.map_map]
  congr 2
  funext symbol
  rw [Function.comp_apply, Function.comp_apply, apply_ite Symbol.folded]
  rfl

end SymbolTable

/-- The entries stand at the same place and have recased operands. -/
structure Entry.Recased (entry entry' : Entry) : Prop where
  opcode_eq : entry.opcode = entry'.opcode
  line_eq : entry.line = entry'.line
  column_eq : entry.column = entry'.column
  source_eq : upper entry.source = upper entry'.source
  operands : Option.Rel Piece.Recased entry.operands entry'.operands

namespace Layout

/-- The layouts agree but for the case of letters outside quotes. -/
structure Recased (layout layout' : Layout) : Prop where
  symbols_eq : layout.symbols.folded = layout'.symbols.folded
  current_eq : layout.current = layout'.current
  data_eq : layout.data = layout'.data
  dataStart_eq : layout.dataStart = layout'.dataStart
  textStart_eq : layout.textStart = layout'.textStart
  entries : List.Forall₂ Entry.Recased layout.entries.toList layout'.entries.toList

variable {layout layout' : Layout} {piece piece' : Piece} {pieces pieces' : List Piece}

open AssemblyFailure

namespace Recased

theorem dataCursor_eq (h : layout.Recased layout') : layout.dataCursor = layout'.dataCursor := by
  rw [dataCursor, dataCursor, h.dataStart_eq, h.data_eq]

theorem checkedCursor_eq (h : layout.Recased layout') :
    layout.checkedCursor = layout'.checkedCursor := by
  rw [checkedCursor, checkedCursor, h.dataCursor_eq]

theorem textCursor_eq (h : layout.Recased layout') : layout.textCursor = layout'.textCursor := by
  have hsize : layout.entries.size = layout'.entries.size := h.entries.length_eq
  rw [textCursor, textCursor, h.textStart_eq, hsize]

theorem isEmpty_entries_eq (h : layout.Recased layout') :
    layout.entries.isEmpty = layout'.entries.isEmpty := by
  have hsize : layout.entries.size = layout'.entries.size := h.entries.length_eq
  rw [Array.isEmpty, Array.isEmpty, hsize]

theorem empty : Recased {} {} := ⟨rfl, rfl, rfl, rfl, rfl, .nil⟩

theorem emit (h : layout.Recased layout') (bytes : List UInt8) :
    (layout.emit bytes).Recased (layout'.emit bytes) :=
  { h with data_eq := by rw [Layout.emit, Layout.emit, h.data_eq] }

theorem pad (h : layout.Recased layout') (count : Nat) :
    (layout.pad count).Recased (layout'.pad count) :=
  { h with data_eq := by rw [Layout.pad, Layout.pad, h.data_eq] }

theorem rebase (h : layout.Recased layout') (kind : SymbolKind) (source target : Int) :
    (layout.symbols.rebase kind source target).folded =
      (layout'.symbols.rebase kind source target).folded := by
  rw [SymbolTable.folded_rebase, h.symbols_eq, SymbolTable.folded_rebase]

end Recased

/-! ## Labels and instructions -/

theorem isDefinable_eq {name name' : Text} (h : Text.Recased name name') :
    isDefinable name = isDefinable name' := by
  rw [isDefinable, isDefinable, h.isIdentifier_eq, h.register_eq]

theorem alike_define (h : layout.Recased layout') (hname : piece.Recased piece') (line : Nat)
    (value : Int) (kind : SymbolKind) :
    Alike SamePlace Recased (layout.define piece line value kind)
      (layout'.define piece' line value kind) := by
  have hsymbol : Symbol.folded { name := piece.text, value, kind, line } =
      Symbol.folded { name := piece'.text, value, kind, line } := by
    simp [Symbol.folded, hname.text.upper_eq]
  have hinsert := SymbolTable.alike_insert h.symbols_eq hsymbol
  unfold define
  generalize layout.symbols.insert _ = inserted at *
  generalize layout'.symbols.insert _ = inserted' at *
  cases hinsert with
  | ok hsymbols => exact .ok { h with symbols_eq := hsymbols }
  | error hfirst => exact .error (.rejected ⟨rfl, rfl, hname.column_eq⟩)

/-- Computations that begin by counting the same bytes come out alike if they go on alike. -/
theorem alike_checkedCursor {α β : Type} {R : α → β → Prop} (h : layout.Recased layout')
    {rest : Nat → Except AssemblyFailure α} {rest' : Nat → Except AssemblyFailure β}
    (hrest : ∀ cursor, Alike SamePlace R (rest cursor) (rest' cursor)) :
    Alike SamePlace R (layout.checkedCursor >>= rest) (layout'.checkedCursor >>= rest') := by
  rw [h.checkedCursor_eq]
  cases layout'.checkedCursor with
  | ok cursor => exact hrest cursor
  | error failure => exact .error (.refl failure)

theorem alike_placeLabel (h : layout.Recased layout') (hlabel : piece.Recased piece')
    (line : Nat) :
    Alike SamePlace Recased (layout.placeLabel piece line)
      (layout'.placeLabel piece' line) := by
  unfold placeLabel
  rw [isDefinable_eq hlabel.text, h.current_eq, h.textCursor_eq]
  split
  · exact .error (.rejected ⟨rfl, rfl, hlabel.column_eq⟩)
  · cases layout'.current with
    | data =>
        refine alike_checkedCursor h fun cursor => ?_
        split
        · exact .error (.rejected ⟨rfl, rfl, hlabel.column_eq⟩)
        · exact alike_define h hlabel line _ _
    | text => exact alike_define h hlabel line _ _

theorem alike_placeInstruction (h : layout.Recased layout') (hstatement : piece.Recased piece')
    (line : Nat) :
    Alike SamePlace Recased (layout.placeInstruction piece line)
      (layout'.placeInstruction piece' line) := by
  obtain ⟨hword, hoperands⟩ := hstatement.splitWord
  have hopcode : Opcode.ofText? piece.splitWord.1.text =
      Opcode.ofText? piece'.splitWord.1.text := by
    rw [← Opcode.ofText?_upper, hword.text.upper_eq, Opcode.ofText?_upper]
  unfold placeInstruction
  dsimp only
  rw [hopcode, h.current_eq, h.textCursor_eq]
  split
  · exact .error (.rejected ⟨rfl, rfl, hword.column_eq⟩)
  · split
    · exact .error (.rejected ⟨rfl, rfl, hword.column_eq⟩)
    · split
      · exact .error (.rejected ⟨rfl, rfl, hword.column_eq⟩)
      · refine .ok { h with current_eq := rfl, entries := ?_ }
        dsimp only
        rw [Array.toList_push, Array.toList_push]
        refine List.rel_append h.entries (.cons ?_ .nil)
        exact ⟨rfl, rfl, hword.column_eq, hstatement.text.upper_eq, hoperands⟩

/-! ## Directives -/

/-- The list of operands behind a word, which is empty if nothing follows. -/
theorem alike_operandPieces {rest rest' : Option Piece}
    (hrest : Option.Rel Piece.Recased rest rest') :
    Alike SamePlace (List.Forall₂ Piece.Recased) (operandPieces rest) (operandPieces rest') := by
  cases hrest with
  | none => exact .ok .nil
  | @some piece piece' hpiece =>
      have hsplit := hpiece.splitOperands
      unfold operandPieces
      dsimp only
      generalize piece.splitOperands = split at *
      generalize piece'.splitOperands = split' at *
      cases hsplit with
      | none => exact .error (.refl _)
      | some hoperands => exact .ok hoperands

theorem alike_argument (h : layout.Recased layout') (hpiece : piece.Recased piece')
    (line : Nat) (min max : Int) :
    Alike SamePlace Eq (layout.argument line min max piece)
      (layout'.argument line min max piece') := by
  have hresult : Alike OperandError.SameCode Eq
      (Operand.value layout.symbols piece.text >>= fun value =>
        OperandError.inToken piece.text (Literal.inRange value min max))
      (Operand.value layout'.symbols piece'.text >>= fun value =>
        OperandError.inToken piece'.text (Literal.inRange value min max)) := by
    refine (Operand.alike_value h.symbols_eq hpiece.text).bind fun value value' hvalue => ?_
    rw [hvalue]
    exact Operand.alike_inToken piece.text piece'.text _
  unfold argument
  dsimp only
  generalize (Operand.value layout.symbols piece.text >>= _) = result at *
  generalize (Operand.value layout'.symbols piece'.text >>= _) = result' at *
  cases hresult with
  | ok hvalue => exact .ok hvalue
  | error hcode => exact .error (.rejected ⟨hcode, rfl, hpiece.column_eq⟩)

theorem alike_stringArgument (hpiece : piece.Recased piece') (line : Nat) :
    Alike SamePlace Eq (stringArgument line piece) (stringArgument line piece') := by
  unfold stringArgument
  rw [Literal.recased_bytes hpiece.text]
  cases Literal.bytes piece'.text with
  | ok bytes => exact .ok rfl
  | error error => exact .error (.rejected ⟨rfl, rfl, hpiece.column_eq⟩)

theorem isEmpty_eq_of_forall₂ (hpieces : List.Forall₂ Piece.Recased pieces pieces') :
    pieces.isEmpty = pieces'.isEmpty := by
  cases hpieces with
  | nil => rfl
  | cons => rfl

theorem alike_emitEach (h : layout.Recased layout') (wrongArguments : AssemblyFailure)
    {bytes bytes' : Piece → Except AssemblyFailure (List UInt8)}
    (hbytes : ∀ piece piece', piece.Recased piece' →
      Alike SamePlace Eq (bytes piece) (bytes' piece'))
    (hpieces : List.Forall₂ Piece.Recased pieces pieces') :
    Alike SamePlace Recased (layout.emitEach wrongArguments bytes pieces)
      (layout'.emitEach wrongArguments bytes' pieces') := by
  unfold emitEach
  rw [isEmpty_eq_of_forall₂ hpieces]
  split
  · exact .error (.refl _)
  · refine (Alike.mapM hpieces hbytes).bind fun parts parts' hparts => ?_
    rw [List.forall₂_eq_eq_eq] at hparts
    rw [hparts]
    exact .ok (h.emit _)

theorem alike_origin (h : layout.Recased layout') (target line column : Nat) :
    Alike SamePlace Recased (layout.origin target line column)
      (layout'.origin target line column) := by
  unfold origin
  rw [h.current_eq, h.isEmpty_entries_eq, h.data_eq, h.textStart_eq, h.dataStart_eq]
  cases layout'.current with
  | text =>
      dsimp only
      split
      · exact .error (.rejected ⟨rfl, rfl, rfl⟩)
      · exact .ok ⟨h.rebase .code _ target, rfl, rfl, rfl, rfl, h.entries⟩
  | data =>
      dsimp only
      split
      · exact .ok ⟨h.rebase .data _ target, rfl, rfl, rfl, rfl, h.entries⟩
      · refine alike_checkedCursor h fun cursor => ?_
        split
        · exact .error (.rejected ⟨rfl, rfl, rfl⟩)
        · exact .ok (h.pad _)

theorem recased_nameAndValue? (hpieces : List.Forall₂ Piece.Recased pieces pieces') :
    Option.Rel (fun split split' => split.1.Recased split'.1 ∧ split.2.Recased split'.2)
      (nameAndValue? pieces) (nameAndValue? pieces') := by
  rcases hpieces with _ | @⟨both, both', _, _, hboth, _ | ⟨hvalue, _ | ⟨_, _⟩⟩⟩
  · exact .none
  · obtain ⟨hname, hrest⟩ := hboth.splitWord
    unfold nameAndValue?
    dsimp only
    generalize both.splitWord = split at *
    generalize both'.splitWord = split' at *
    obtain ⟨name, value⟩ := split
    obtain ⟨name', value'⟩ := split'
    cases hrest with
    | none => exact .none
    | some hvalue => exact .some ⟨hname, hvalue⟩
  · exact .some ⟨hboth, hvalue⟩
  · exact .none

theorem alike_apply (h : layout.Recased layout') (directive : Directive) (line column : Nat)
    (hpieces : List.Forall₂ Piece.Recased pieces pieces') :
    Alike SamePlace Recased (layout.apply directive line column pieces)
      (layout'.apply directive line column pieces') := by
  have hempty := isEmpty_eq_of_forall₂ hpieces
  cases directive with
  | data | text =>
      unfold apply
      dsimp only
      rw [hempty]
      split
      · exact .ok { h with current_eq := rfl }
      · exact .error (.refl _)
  | org =>
      rcases hpieces with _ | ⟨hpiece, _ | ⟨_, _⟩⟩
      · exact .error (.refl _)
      · refine (alike_argument h hpiece line _ _).bind fun target target' htarget => ?_
        rw [htarget]
        exact alike_origin h _ line column
      · exact .error (.refl _)
  | equ =>
      have hsplit := recased_nameAndValue? hpieces
      unfold apply
      dsimp only
      generalize nameAndValue? pieces = split at *
      generalize nameAndValue? pieces' = split' at *
      cases hsplit with
      | none => exact .error (.refl _)
      | some hparts =>
          obtain ⟨hname, hvalue⟩ := hparts
          dsimp only
          rw [isDefinable_eq hname.text]
          split
          · exact .error (.rejected ⟨rfl, rfl, hname.column_eq⟩)
          · refine (alike_argument h hvalue line _ _).bind fun value value' heq => ?_
            rw [heq]
            exact alike_define h hname line _ _
  | byte =>
      refine alike_emitEach h _ (fun piece piece' hpiece => ?_) hpieces
      exact (alike_argument h hpiece line _ _).map fun _ _ heq => by rw [heq]
  | word =>
      refine alike_emitEach h _ (fun piece piece' hpiece => ?_) hpieces
      exact (alike_argument h hpiece line _ _).map fun _ _ heq => by rw [heq]
  | ascii =>
      exact alike_emitEach h _ (fun _ _ hpiece => alike_stringArgument hpiece line) hpieces
  | asciz =>
      refine alike_emitEach h _ (fun piece piece' hpiece => ?_) hpieces
      exact (alike_stringArgument hpiece line).map fun _ _ heq => by rw [heq]
  | space =>
      rcases hpieces with _ | ⟨hpiece, _ | ⟨_, _⟩⟩
      · exact .error (.refl _)
      · refine (alike_argument h hpiece line _ _).bind fun count count' hcount => ?_
        rw [hcount]
        exact .ok (h.pad _)
      · exact .error (.refl _)
  | align =>
      rcases hpieces with _ | ⟨hpiece, _ | ⟨_, _⟩⟩
      · exact .error (.refl _)
      · refine (alike_argument h hpiece line _ _).bind fun value value' hvalue => ?_
        rw [hvalue]
        split
        · exact alike_checkedCursor h fun cursor => .ok (h.pad _)
        · exact .error (.rejected ⟨rfl, rfl, hpiece.column_eq⟩)
      · exact .error (.refl _)

theorem alike_placeDirective (h : layout.Recased layout') (hstatement : piece.Recased piece')
    (line : Nat) :
    Alike SamePlace Recased (layout.placeDirective piece line)
      (layout'.placeDirective piece' line) := by
  obtain ⟨hword, hrest⟩ := hstatement.splitWord
  have hdirective : Directive.ofText? piece.splitWord.1.text =
      Directive.ofText? piece'.splitWord.1.text := by
    rw [← Directive.ofText?_upper, hword.text.upper_eq, Directive.ofText?_upper]
  unfold placeDirective
  dsimp only
  rw [hdirective, h.current_eq, hword.column_eq]
  split
  · exact .error (.rejected ⟨rfl, rfl, rfl⟩)
  · split
    · exact .error (.rejected ⟨rfl, rfl, rfl⟩)
    · refine (alike_operandPieces hrest).bind fun pieces pieces' hpieces => ?_
      refine (alike_apply h _ line _ hpieces).bind fun next next' hnext => ?_
      refine alike_checkedCursor hnext fun cursor => ?_
      split
      · exact .error (.rejected ⟨rfl, rfl, rfl⟩)
      · exact .ok hnext

/-! ## Lines -/

theorem alike_placeStatement (h : layout.Recased layout') (hstatement : piece.Recased piece')
    (line : Nat) :
    Alike SamePlace Recased (layout.placeStatement piece line)
      (layout'.placeStatement piece' line) := by
  have hdot : piece.text.head? = some '.' ↔ piece'.text.head? = some '.' :=
    hstatement.text.head?_eq_mark_iff (by decide)
  unfold placeStatement
  simp only [hdot]
  split
  · exact alike_placeDirective h hstatement line
  · exact alike_placeInstruction h hstatement line

theorem alike_place (h : layout.Recased layout') {line line' : SourceLine}
    (hline : line.Recased line') :
    Alike SamePlace Recased (layout.place line) (layout'.place line') := by
  obtain ⟨number, code, label, statement⟩ := line
  obtain ⟨number', code', label', statement'⟩ := line'
  obtain ⟨hnumber, hlabel, hstatement⟩ := hline
  obtain rfl : number = number' := hnumber
  have hrest : ∀ {next next' : Layout}, next.Recased next' →
      Alike SamePlace Recased (next.place ⟨number, code, none, statement⟩)
        (next'.place ⟨number, code', none, statement'⟩) := by
    intro next next' hnext
    cases hstatement with
    | none => exact .ok hnext
    | some hstatement => exact alike_placeStatement hnext hstatement number
  cases hlabel with
  | none => exact hrest h
  | @some label label' hlabel =>
      -- a line with a label is its label and, behind it, the line without
      have hsplit : ∀ (layout : Layout) code label statement,
          layout.place ⟨number, code, some label, statement⟩ =
            layout.placeLabel label number >>= fun next =>
              next.place ⟨number, code, none, statement⟩ := fun _ _ _ _ => rfl
      rw [hsplit, hsplit]
      exact (alike_placeLabel h hlabel number).bind fun _ _ hnext => hrest hnext

/-- Recased lines are placed alike, one after the other. -/
theorem alike_ofLines {source source' : List SourceLine}
    (hlines : List.Forall₂ SourceLine.Recased source source') :
    Alike SamePlace Recased (ofLines source) (ofLines source') :=
  Alike.foldlM hlines (fun _ _ _ _ h hline => alike_place h hline) .empty

end Layout
end WordMachine
