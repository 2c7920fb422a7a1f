import WordMachine.Assembly.Resolution
import WordMachine.Proofs.RecasedLayout

/-!
# Sources recased outside quotes

Operands are read after everything is placed, and checked by their kinds, which
do not depend on the spelling of names.  So letter case is lost in assembly: a
source that is recased outside quotes assembles to the same program, with names
compared in capitals, or fails with the same code at the same place.
-/

namespace WordMachine

open Text

/-- The instruction with its text and the names in it in capitals. -/
def Instruction.folded (instruction : Instruction) : Instruction :=
  { instruction with
    operands := instruction.operands.map Operand.folded
    source := upper instruction.source }

/-- The program with names and statements in capitals. -/
def Program.folded (program : Program) : Program :=
  { program with
    instructions := program.instructions.map Instruction.folded
    symbols := program.symbols.folded }

/-! ## Lists compared through functions -/

section Lists

variable {α β γ : Type} {items : List α} {items' : List β}

theorem forall₂_eq_iff_map_eq {f : α → γ} {g : β → γ} :
    List.Forall₂ (fun item item' => f item = g item') items items' ↔
      items.map f = items'.map g := by
  rw [← List.forall₂_eq_eq_eq, List.forall₂_map_left_iff, List.forall₂_map_right_iff]

theorem forall₂_zipIdx {R : α → β → Prop} (h : List.Forall₂ R items items') (start : Nat) :
    List.Forall₂ (fun item item' => R item.1 item'.1 ∧ item.2 = item'.2)
      (items.zipIdx start) (items'.zipIdx start) := by
  induction h generalizing start with
  | nil => exact .nil
  | cons hitem _ ih => exact .cons ⟨hitem, rfl⟩ (ih (start + 1))

end Lists

/-! ## Operands -/

namespace Operand

theorem kind_folded (operand : Operand) : operand.folded.kind = operand.kind := by
  cases operand <;> rfl

theorem labelName?_folded (operand : Operand) :
    operand.folded.labelName? = operand.labelName?.map upper := by
  cases operand with
  | memory address => cases address <;> rfl
  | register _ | immediate _ | label _ => rfl

variable {operands operands' : List Operand}

/-- A signature is checked by the kinds of the operands alone. -/
theorem check_eq_of_kinds (hkinds : operands.map kind = operands'.map kind) (opcode : Opcode) :
    opcode.check operands = opcode.check operands' := by
  have hfirst : ∀ (signature : List (List OperandKind)) (position : Nat)
      {operands operands' : List Operand}, operands.map kind = operands'.map kind →
        opcode.firstMismatch position signature operands =
          opcode.firstMismatch position signature operands' := by
    intro signature
    induction signature with
    | nil => exact fun _ _ _ _ => rfl
    | cons accepted signature ih =>
        intro position operands operands' hkinds
        cases operands with
        | nil =>
            obtain rfl := List.map_eq_nil_iff.mp hkinds.symm
            rfl
        | cons operand operands =>
            obtain ⟨operand', others', rfl, hkind, hothers⟩ := List.map_eq_cons_iff.mp hkinds.symm
            rw [Opcode.firstMismatch, Opcode.firstMismatch, hkind, ih _ hothers.symm]
  have hlength : operands.length = operands'.length := by
    simpa using congrArg List.length hkinds
  rw [Opcode.check, Opcode.check, hlength, hfirst _ _ hkinds]

theorem kinds_eq_of_folded_eq (h : operands.map folded = operands'.map folded) :
    operands.map kind = operands'.map kind := by
  have hkinds : ∀ operands : List Operand, operands.map kind = (operands.map folded).map kind := by
    intro operands
    rw [List.map_map]
    exact List.map_congr_left fun operand _ => (kind_folded operand).symm
  rw [hkinds, h, ← hkinds]

theorem names_eq_of_folded_eq (h : operands.map folded = operands'.map folded) :
    (operands.filterMap labelName?).map upper = (operands'.filterMap labelName?).map upper := by
  have hnames : ∀ operands : List Operand, (operands.filterMap labelName?).map upper =
      (operands.map folded).filterMap labelName? := by
    intro operands
    rw [List.map_filterMap, List.filterMap_map]
    congr 1
    funext operand
    exact (labelName?_folded operand).symm
  rw [hnames, h, ← hnames]

end Operand

/-! ## Instructions -/

namespace Layout

open AssemblyFailure

variable {layout layout' : Layout} {piece piece' : Piece} {pieces pieces' : List Piece}
  {entry entry' : Entry} {instruction instruction' : Instruction}

theorem alike_operand (h : layout.Recased layout') (hpiece : piece.Recased piece') (line : Nat) :
    Alike SamePlace (fun operand operand' => operand.folded = operand'.folded)
      (layout.operand line piece) (layout'.operand line piece') := by
  have hparse := Operand.alike_parse h.symbols_eq hpiece.text
  unfold operand
  rw [hpiece.text.isEmpty_eq]
  split
  · exact .error (.rejected ⟨rfl, rfl, hpiece.column_eq⟩)
  · generalize Operand.parse layout.symbols piece.text = read at *
    generalize Operand.parse layout'.symbols piece'.text = read' at *
    cases hparse with
    | ok hsame => exact .ok hsame
    | error hcode => exact .error (.rejected ⟨hcode, rfl, hpiece.column_eq⟩)

theorem signatureColumn_eq (hcolumn : entry.column = entry'.column)
    (hpieces : List.Forall₂ Piece.Recased pieces pieces') (error : SignatureError) :
    signatureColumn entry pieces error = signatureColumn entry' pieces' error := by
  cases error with
  | count => exact hcolumn
  | kind opcode position accepted found =>
      have hcolumns : pieces.map (·.column) = pieces'.map (·.column) :=
        forall₂_eq_iff_map_eq.mp (hpieces.imp fun _ _ hpiece => hpiece.column_eq)
      have hread : ∀ (entry : Entry) (pieces : List Piece),
          signatureColumn entry pieces (.kind opcode position accepted found) =
            ((pieces.map (·.column))[position]?).getD entry.column := by
        intro entry pieces
        rw [List.getElem?_map, signatureColumn]
        cases pieces[position]? with
        | none => rfl
        | some piece => rfl
      rw [hread, hread, hcolumns, hcolumn]

theorem alike_instruction (h : layout.Recased layout') (hentry : entry.Recased entry')
    (index : Nat) :
    Alike SamePlace (fun instruction instruction' => instruction.folded = instruction'.folded)
      (layout.instruction entry index) (layout'.instruction entry' index) := by
  unfold instruction
  rw [hentry.line_eq]
  refine (alike_operandPieces hentry.operands).bind fun pieces pieces' hpieces => ?_
  refine (Alike.mapM hpieces fun _ _ hpiece => alike_operand h hpiece entry'.line).bind
    fun operands operands' hoperands => ?_
  have hfolded := forall₂_eq_iff_map_eq.mp hoperands
  rw [hentry.opcode_eq,
    Operand.check_eq_of_kinds (Operand.kinds_eq_of_folded_eq hfolded) entry'.opcode]
  cases entry'.opcode.check operands' with
  | error error =>
      exact .error (.rejected ⟨rfl, rfl, signatureColumn_eq hentry.column_eq hpieces error⟩)
  | ok checked =>
      refine .ok ?_
      simp [Instruction.folded, hfolded, hentry.column_eq, hentry.source_eq, h.textStart_eq]

theorem alike_resolve (h : layout.Recased layout') :
    Alike SamePlace
      (List.Forall₂ fun instruction instruction' => instruction.folded = instruction'.folded)
      layout.resolve layout'.resolve := by
  refine Alike.mapM (forall₂_zipIdx h.entries 0) ?_
  rintro ⟨entry, index⟩ ⟨entry', index'⟩ ⟨hentry, hindex⟩
  obtain rfl : index = index' := hindex
  exact alike_instruction h hentry index

theorem alike_validateName (h : layout.Recased layout')
    (hinstruction : instruction.folded = instruction'.folded) {name name' : Text}
    (hname : upper name = upper name') :
    Alike SamePlace Eq (layout.validateName instruction name)
      (layout'.validateName instruction' name') := by
  have hopcode : instruction.opcode = instruction'.opcode := congrArg (·.opcode) hinstruction
  have hline : instruction.line = instruction'.line := congrArg (·.line) hinstruction
  have hcolumn : instruction.column = instruction'.column := congrArg (·.column) hinstruction
  have hget := SymbolTable.rel_get? h.symbols_eq hname
  unfold validateName
  rw [hopcode, hline, hcolumn]
  generalize layout.symbols.get? name = found at *
  generalize layout'.symbols.get? name' = found' at *
  cases hget with
  | none => exact .error (.rejected ⟨rfl, rfl, rfl⟩)
  | @some symbol symbol' hsame =>
      have hkind : symbol.kind = symbol'.kind := congrArg (·.kind) hsame
      dsimp only
      rw [hkind]
      split
      · exact .error (.rejected ⟨rfl, rfl, rfl⟩)
      · exact .ok rfl

theorem alike_validate (h : layout.Recased layout')
    (hinstruction : instruction.folded = instruction'.folded) :
    Alike SamePlace Eq (layout.validate instruction) (layout'.validate instruction') := by
  have hoperands : instruction.operands.map Operand.folded =
      instruction'.operands.map Operand.folded := congrArg (·.operands) hinstruction
  have hnames := forall₂_eq_iff_map_eq.mpr (Operand.names_eq_of_folded_eq hoperands)
  exact Alike.forM hnames fun _ _ hname => alike_validateName h hinstruction hname

theorem alike_program (h : layout.Recased layout') :
    Alike SamePlace (fun program program' => program.folded = program'.folded)
      layout.program layout'.program := by
  refine (alike_resolve h).bind fun instructions instructions' hinstructions => ?_
  refine (Alike.forM hinstructions fun _ _ hsame => alike_validate h hsame).bind fun _ _ _ => ?_
  refine .ok ?_
  have hfolded := forall₂_eq_iff_map_eq.mp hinstructions
  simp [Program.folded, hfolded, h.symbols_eq, h.data_eq, h.textStart_eq, h.dataStart_eq]

end Layout

/-! ## Sources -/

/-- Letters outside quotes may be written in either case. -/
theorem assemble_ignores_case {source source' : Text}
    (hlines : List.Forall₂ SourceLine.RecasedText (lines source) (lines source')) :
    (∀ program, assemble source = .ok program →
      ∃ program', assemble source' = .ok program' ∧ program'.folded = program.folded) ∧
      (∀ rejection, assemble source = .error (.rejected rejection) →
        ∃ rejection',
          assemble source' = .error (.rejected rejection') ∧
            rejection'.cause.code = rejection.cause.code ∧
              rejection'.line = rejection.line ∧ rejection'.column = rejection.column) ∧
        ∀ message, assemble source = .error (.breakdown message) →
          assemble source' = .error (.breakdown message) := by
  have halike : Alike AssemblyFailure.SamePlace
      (fun program program' => program.folded = program'.folded)
      (assemble source) (assemble source') :=
    (Layout.alike_ofLines (SourceLine.recased_ofText hlines)).bind fun _ _ h =>
      Layout.alike_program h
  refine ⟨?_, ?_, ?_⟩
  · intro program hprogram
    rw [hprogram] at halike
    obtain ⟨program', hprogram', hfolded⟩ := halike.exists_of_ok
    exact ⟨program', hprogram', hfolded.symm⟩
  · intro rejection hrejection
    rw [hrejection] at halike
    obtain ⟨_, hrejection', ⟨hplace⟩⟩ := halike.exists_of_error
    exact ⟨_, hrejection', hplace.code_eq.symm, hplace.line_eq.symm, hplace.column_eq.symm⟩
  · intro message hbreakdown
    rw [hbreakdown] at halike
    obtain ⟨_, hbreakdown', ⟨⟩⟩ := halike.exists_of_error
    exact hbreakdown'

theorem assemble_ignores_case_push :
    let source := "Start: push 'a' ; it's\nmov SP, $fF\njmp start".toList
    let source' := "sTART: PUSH 'a' ; it's\nMOV sp, $Ff\njmp START".toList
    ∃ program program',
      assemble source = .ok program ∧
        assemble source' = .ok program' ∧ program'.folded = program.folded := by
  intro source source'
  have hsource : lines source =
      ["Start: push 'a' ; it's".toList, "mov SP, $fF".toList, "jmp start".toList] := by rfl
  have hsource' : lines source' =
      ["sTART: PUSH 'a' ; it's".toList, "MOV sp, $Ff".toList, "jmp START".toList] := by rfl
  have hfirst : SourceLine.RecasedText "Start: push 'a' ; it's".toList
      "sTART: PUSH 'a' ; it's".toList :=
    ⟨"; it's".toList, "sTART: PUSH 'a' ".toList, by rfl, by rfl, by decide⟩
  have hsecond : SourceLine.RecasedText "mov SP, $fF".toList "MOV sp, $Ff".toList :=
    ⟨[], "MOV sp, $Ff".toList, by rfl, by rfl, by decide⟩
  have hthird : SourceLine.RecasedText "jmp start".toList "jmp START".toList :=
    ⟨[], "jmp START".toList, by rfl, by rfl, by decide⟩
  have hlines : List.Forall₂ SourceLine.RecasedText (lines source) (lines source') := by
    rw [hsource, hsource']
    exact .cons hfirst (.cons hsecond (.cons hthird .nil))
  cases hprogram : assemble source with
  | error rejection =>
      have hok : (assemble source).isOk = true := by decide +kernel
      rw [hprogram] at hok
      cases hok
  | ok program =>
      obtain ⟨program', hprogram', hfolded⟩ := (assemble_ignores_case hlines).1 program hprogram
      exact ⟨program, program', rfl, hprogram', hfolded⟩

end WordMachine
