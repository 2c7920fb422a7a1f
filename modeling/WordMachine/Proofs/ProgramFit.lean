import WordMachine.Proofs.BranchTargets
import WordMachine.Proofs.FilledSources
import WordMachine.Proofs.SourceLimits

/-!
# Assembled programs fit the machine

Whatever a source text places, its instructions end inside the numbers there are, and
its data ends inside memory as long as 32 bits count its bytes, so that nothing is cut
off when addresses become words or when the data is loaded.  Assembled programs are also
closed: operands fit their opcodes, and the names in them are defined and told apart.
-/

namespace WordMachine

/-! ## Placed data ends inside memory -/

namespace Layout

variable {layout layout' : Layout}

theorem dataCursor_of_placeLabel {label : Piece} {line : Nat}
    (hplace : layout.placeLabel label line = .ok layout') :
    layout'.dataCursor = layout.dataCursor := by
  obtain ⟨symbols, -, rfl⟩ := symbols_of_placeLabel hplace
  rfl

theorem dataCursor_le_of_placeStatement {statement : Piece} {line : Nat}
    (hfits : layout.dataCursor ≤ addressSpace)
    (hplace : layout.placeStatement statement line = .ok layout') :
    layout'.dataCursor ≤ addressSpace := by
  unfold placeStatement at hplace
  split at hplace
  · -- the bytes of a directive are counted after they have been emitted
    obtain ⟨directive, -, -, hends⟩ := apply_of_placeDirective hplace
    exact hends
  · obtain ⟨entry, -, -, rfl⟩ := entry_of_placeInstruction hplace
    exact hfits

theorem dataCursor_le_of_place {line : SourceLine}
    (hfits : layout.dataCursor ≤ addressSpace) (hplace : layout.place line = .ok layout') :
    layout'.dataCursor ≤ addressSpace := by
  apply place_induction _ _ hfits hplace
  · intro layout label layout' _ hfits hlabel
    rw [dataCursor_of_placeLabel hlabel]
    exact hfits
  · exact fun _ _ _ _ hfits hstatement => dataCursor_le_of_placeStatement hfits hstatement

theorem dataCursor_le_of_ofLines {lines : List SourceLine} (hlayout : ofLines lines = .ok layout) :
    layout.dataCursor ≤ addressSpace :=
  foldlM_induction (fun _ _ _ _ => dataCursor_le_of_place) (by decide) hlayout

/-! ## Names -/

theorem distinct_of_applied {directive : Directive} (hdistinct : layout.symbols.Distinct)
    (happlied : layout.Applied directive layout') : layout'.symbols.Distinct := by
  cases happlied with
  | enterData | enterText | emit => exact hdistinct
  | moveText target | moveData target => exact hdistinct.rebase _ _ _
  | constant symbol symbols _ hinsert => exact hdistinct.insert hinsert

theorem stable_distinct : Stable fun layout => layout.symbols.Distinct where
  label hdistinct hplace := by
    obtain ⟨symbols, hinsert, rfl⟩ := symbols_of_placeLabel hplace
    exact hdistinct.insert hinsert
  entry _ hdistinct _ := hdistinct
  directive hdistinct happly := distinct_of_applied hdistinct (applied_of_apply happly)

theorem distinct_of_ofLines {lines : List SourceLine} (hlayout : ofLines lines = .ok layout) :
    layout.symbols.Distinct :=
  stable_distinct.foldlM SymbolTable.distinct_empty hlayout

end Layout

/-! ## Loading a program -/

namespace Program

variable {program : Program}

theorem byte_of_lt_size {index : Nat} (hindex : index < program.data.size)
    (hinside : program.dataStart.toNat + index < Memory.size) :
    (Memory.ofProgram program).byte (program.dataStart.toNat + index) = program.data[index] := by
  rw [Memory.ofProgram, Memory.byte_load _ _ _ hinside]
  simp [hindex]

theorem byte_of_outside {address : Nat}
    (houtside : address < program.dataStart.toNat ∨ program.dataEnd ≤ address) :
    (Memory.ofProgram program).byte address = 0 := by
  by_cases hsize : address < Memory.size
  · rw [Memory.ofProgram, Memory.byte_load _ _ _ hsize]
    split
    · rw [List.getElem?_eq_none]
      · simp
      · unfold dataEnd at houtside
        simp only [Array.length_toList]
        omega
    · simp
  · exact Memory.byte_of_size_le _ (Nat.le_of_not_lt hsize)

/-- The instructions are numbered from the start of the text on, and no number is lost when it
becomes a word. -/
def Numbered (program : Program) : Prop :=
  ∀ index instruction, program.instructions[index]? = some instruction →
    instruction.address.toNat = program.textStart.toNat + index

theorem Numbered.instructionAt? (hnumbered : program.Numbered) {index : Nat}
    {instruction : Instruction} (hinstruction : program.instructions[index]? = some instruction) :
    program.instructionAt? instruction.address = some instruction := by
  have haddress := hnumbered index instruction hinstruction
  have hstart : program.textStart ≤ instruction.address := by
    rw [BitVec.le_def]
    omega
  rw [Program.instructionAt?, if_pos hstart, haddress, Nat.add_sub_cancel_left]
  exact hinstruction

theorem Numbered.address_eq (hnumbered : program.Numbered) {address : Word}
    {instruction : Instruction} (hinstruction : program.instructionAt? address = some instruction) :
    instruction.address = address := by
  unfold Program.instructionAt? at hinstruction
  split at hinstruction
  next hstart =>
    have hnumber := hnumbered _ instruction hinstruction
    rw [BitVec.le_def] at hstart
    apply BitVec.eq_of_toNat_eq
    omega
  · cases hinstruction

end Program

/-- A program in which every name stands for one thing, and whose data bytes, as far as 32 bits
count them, and instructions fit the machine. -/
structure Program.Closed (program : Program) : Prop where
  dataEnd_le : program.dataStart.toNat + program.data.size % 4294967296 ≤ 65536
  textEnd_le : program.textStart.toNat + program.instructions.size ≤ 65536
  numbered : program.Numbered
  found : ∀ (index : Nat) instruction, program.instructions[index]? = some instruction →
    program.instructionAt? instruction.address = some instruction
  elsewhere : ∀ address, (∀ instruction ∈ program.instructions, instruction.address ≠ address) →
    program.instructionAt? address = none
  loaded : ∀ index (hindex : index < program.data.size), program.dataStart.toNat + index < 65536 →
    (Memory.ofProgram program).byte (program.dataStart.toNat + index) = program.data[index]
  blank : ∀ address,
    address < program.dataStart.toNat ∨ program.dataStart.toNat + program.data.size ≤ address →
      (Memory.ofProgram program).byte address = 0
  accepted : ∀ instruction ∈ program.instructions,
    instruction.opcode.check instruction.operands = .ok ()
  defined : ∀ instruction ∈ program.instructions, ∀ operand ∈ instruction.operands,
    ∀ name, operand.labelName? = some name →
      ∃ symbol,
        program.symbols.get? name = some symbol ∧
          (instruction.opcode.isBranch = true → symbol.kind = .code)
  distinct : program.symbols.Distinct

theorem Layout.closed_of_program {layout : Layout} {lines : List SourceLine} {program : Program}
    (hlayout : ofLines lines = .ok layout) (hprogram : layout.program = .ok program) :
    program.Closed := by
  have hanchored := (bounded_of_ofLines hlayout).anchored
  have hdataFits := dataCursor_le_of_ofLines hlayout
  have hdistinct := distinct_of_ofLines hlayout
  have htext := textCursor_of_program hlayout hprogram
  obtain ⟨-, -, hdata⟩ := starts_of_ofLines hlayout
  have hnumbered : program.Numbered := by
    intro index instruction hinstruction
    obtain ⟨-, -, -, haddress, -⟩ := instruction_of_program hlayout hprogram hinstruction
    exact haddress
  have hdataEnd : program.dataStart.toNat + program.data.size % 4294967296 ≤ 65536 := by
    obtain ⟨instructions, -, rfl⟩ := of_program hprogram
    rw [hdata]
    exact hdataFits
  constructor
  case dataEnd_le => exact hdataEnd
  case textEnd_le =>
    rw [htext]
    exact hanchored.textCursor_le
  case numbered => exact hnumbered
  case found =>
    intro index instruction hinstruction
    exact hnumbered.instructionAt? hinstruction
  case elsewhere =>
    intro address hnone
    cases hfound : program.instructionAt? address with
    | none => rfl
    | some instruction =>
        have hmem := Program.mem_of_instructionAt? hfound
        exact absurd (hnumbered.address_eq hfound) (hnone instruction hmem)
  case loaded =>
    intro index hindex hinside
    exact Program.byte_of_lt_size hindex hinside
  case blank =>
    intro address houtside
    exact Program.byte_of_outside houtside
  case accepted =>
    intro instruction hmem
    exact (checked_of_program hprogram hmem).accepted
  case defined =>
    intro instruction hmem operand hoperand name hname
    have hvalidate := validate_of_program hprogram hmem
    obtain ⟨instructions, -, rfl⟩ := of_program hprogram
    exact symbol_of_validate hvalidate hoperand hname
  case distinct =>
    obtain ⟨instructions, -, rfl⟩ := of_program hprogram
    exact hdistinct

/-- An assembled program is closed, and its sections start where they have been placed.  All of
its data is inside memory if 32 bits count its bytes, as they do unless the source is too long. -/
theorem assembled_program_is_closed
    (source : Text) (program : Program) (hassemble : assemble source = .ok program) :
    program.Closed ∧
      (program.dataStart.toNat + program.data.size ≤ 65536 ↔ program.data.size < 4294967296) ∧
      (Text.width source < sourceLimit → program.data.size < 4294967296) ∧
      ∃ layout,
        Layout.ofText source = .ok layout ∧
          program.textStart.toNat = layout.textStart ∧
            program.dataStart.toNat = layout.dataStart := by
  obtain ⟨layout, hlayout, hprogram⟩ := exists_of_bind_eq_ok hassemble
  have hclosed := Layout.closed_of_program hlayout hprogram
  have hends := hclosed.dataEnd_le
  obtain ⟨-, htext, hdata⟩ := Layout.starts_of_ofLines hlayout
  obtain ⟨instructions, -, rfl⟩ := Layout.of_program hprogram
  refine ⟨hclosed, ?_, fun hsource => ?_, layout, hlayout, htext, hdata⟩
  · omega
  · have hplaced := Layout.dataEnd_lt_of_le (Layout.dataEnd_le_of_ofText hsource hlayout)
    unfold Layout.dataEnd at hplaced
    dsimp only
    omega

/-- Data up to the end of memory, and an instruction with the last number there is. -/
def Program.brimming : Program where
  instructions :=
    #[{ opcode := .jmp, operands := [.label "End".toList],
        line := 6, column := 6, source := "JMP End".toList, address := 65535 }]
  symbols :=
    { symbols :=
        [{ name := "last".toList, value := 65534, kind := .data, line := 3 },
          { name := "end".toList, value := 65535, kind := .code, line := 6 }] }
  data := #[254, 255]
  textStart := 65535
  dataStart := 65534

theorem assembled_program_is_closed_brimming :
    let source :=
      ".DATA\n.ORG 65534\nlast: .WORD last\n.TEXT\n.ORG 65535\nend: JMP End".toList
    assemble source = .ok .brimming ∧
      Program.brimming.dataEnd = 65536 ∧
        (Memory.ofProgram .brimming).byte 65535 = 255 ∧
          (Memory.ofProgram .brimming).byte 65533 = 0 ∧
            Program.brimming.instructionAt? 65534 = none := by
  intro source
  have hassemble : assemble source = .ok .brimming := by decide +kernel
  obtain ⟨hclosed, -⟩ := assembled_program_is_closed source .brimming hassemble
  refine ⟨hassemble, rfl, ?_, ?_, ?_⟩
  · exact hclosed.loaded 1 (by decide) (by decide)
  · exact hclosed.blank 65533 (.inl (by decide))
  · apply hclosed.elsewhere 65534
    decide

/-- Of 2 ^ 32 data bytes none is counted, so all of them are let through. -/
theorem not_every_assembled_program_fits :
    ¬∀ source program, assemble source = .ok program →
      program.dataStart.toNat + program.data.size ≤ 65536 := by
  intro hall
  have hwidth := Text.width_replicate 4294967296
  generalize List.replicate 4294967296 'a' = text at hwidth
  have hassemble : assemble (Text.filledSource text) = .ok (.filled text) := by
    apply assemble_filledSource
    rw [Layout.dataCursor_filled, hwidth]
    decide
  have hends := hall _ _ hassemble
  have hsize : (Program.filled text).data.size = 4294967296 :=
    (Layout.size_data_filled text).trans hwidth
  omega

end WordMachine
