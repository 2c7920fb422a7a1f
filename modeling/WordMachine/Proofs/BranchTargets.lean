import WordMachine.Proofs.EarlyValues
import WordMachine.Proofs.OperandSoundness

/-!
# Where assembled branches go

The assembler checks the kinds of operands and the names in them.  It checks no
number that a branch goes to, so a branch can be to a negative literal, or to a
label behind the last instruction number there is.  Both assemble, and running
into one of them is the only way for an assembled program to blame an operand.
-/

namespace WordMachine

/-! ## What a token is read as -/

namespace Operand

open Text

/-- The operands that a token may be read as, and what they are taken from. -/
inductive ParsesTo (table : SymbolTable) (token : Text) : Operand → Prop
  | register (register : Register) : ParsesTo table token (.register register)
  | value {inner : Text} {value : Int} (hvalue : Operand.value table inner = .ok value) :
      ParsesTo table token (.immediate value)
  | number {value : Int} (hnumber : Literal.number token = .ok value) :
      ParsesTo table token (.immediate value)
  | constant {value : Int} (hconstant : table.constant? token = some value) :
      ParsesTo table token (.immediate value)
  | memory {inner : Text} {place : Address} (haddress : address table inner = .ok place) :
      ParsesTo table token (.memory place)
  | label (hname : isIdentifier token = true) : ParsesTo table token (.label token)

theorem parsesTo_of_parse {table : SymbolTable} {token : Text} {operand : Operand}
    (hparse : parse table token = .ok operand) : ParsesTo table token operand := by
  unfold parse at hparse
  split at hparse
  · obtain ⟨value, hvalue, rfl⟩ := exists_of_map_eq_ok hparse
    exact .value hvalue
  · split at hparse
    · obtain ⟨place, haddress, rfl⟩ := exists_of_map_eq_ok hparse
      exact .memory haddress
    · cases hparse
  · split at hparse
    next register _ =>
      cases hparse
      exact .register register
    · split at hparse
      · obtain ⟨value, hnumber, rfl⟩ := exists_of_map_eq_ok hparse
        exact .number (ok_of_mapError_eq_ok hnumber)
      · split at hparse
        next hname =>
          split at hparse
          next hconstant =>
            cases hparse
            exact .constant hconstant
          · cases hparse
            exact .label hname
        · cases hparse

end Operand

/-! ## The values of symbols -/

namespace Layout

variable {layout layout' : Layout} {line column : Nat} {token : Text} {value : Int}

/-- The values that a symbol of a kind may have. -/
def Admits (layout : Layout) (value : Int) : SymbolKind → Prop
  | .code => 0 ≤ value ∧ value ≤ layout.textCursor
  | .data => 0 ≤ value ∧ value < addressSpace
  | .constant => Literal.minValue ≤ value ∧ value ≤ Literal.maxValue

structure Bounded (layout : Layout) : Prop where
  anchored : layout.Anchored
  admits : ∀ symbol ∈ layout.symbols.symbols, layout.Admits symbol.value symbol.kind

theorem bounded_empty : Bounded {} where
  anchored := anchored_empty
  admits := nofun

theorem Bounded.insert {symbol : Symbol} {symbols : SymbolTable} (hbounded : layout.Bounded)
    (hkeeps : layout.Keeps { layout with symbols })
    (hinsert : layout.symbols.insert symbol = .ok symbols)
    (hadmits : layout.Admits symbol.value symbol.kind) :
    Bounded { layout with symbols } := by
  refine ⟨(hkeeps hbounded.anchored).1, fun other hother => ?_⟩
  obtain ⟨-, hsymbols⟩ := SymbolTable.symbols_insert hinsert
  have hmem : other ∈ layout.symbols.symbols ∨ other = symbol := by
    rw [hsymbols, List.mem_append, List.mem_singleton] at hother
    exact hother
  rcases hmem with hold | rfl
  · exact hbounded.admits other hold
  · exact hadmits

theorem room_of_placeLabel {label : Piece}
    (hplace : layout.placeLabel label line = .ok layout') (hcurrent : layout.current = .data) :
    layout.dataCursor < addressSpace := by
  unfold placeLabel at hplace
  split at hplace
  · cases hplace
  · rw [hcurrent] at hplace
    obtain ⟨cursor, hcursor, hdefine⟩ := exists_of_bind_eq_ok hplace
    obtain ⟨-, rfl⟩ := checkedCursor_eq_ok_iff.mp hcursor
    split at hdefine
    · cases hdefine
    next hroom => exact Nat.lt_of_not_le hroom

theorem Bounded.placeLabel {label : Piece} (hbounded : layout.Bounded)
    (hplace : layout.placeLabel label line = .ok layout') : layout'.Bounded := by
  have hkeeps := keeps_placeLabel hplace
  have hroom := room_of_placeLabel hplace
  obtain ⟨symbols, hinsert, rfl⟩ := symbols_of_placeLabel hplace
  apply hbounded.insert hkeeps hinsert
  unfold labelSymbol
  split
  · simp [Admits]
  next hdata =>
    have hcursor := hroom hdata
    simp [Admits]
    omega

theorem symbol_of_equ {arguments : List Piece}
    (happly : layout.apply .equ line column arguments = .ok layout') :
    ∃ symbol symbols,
      layout.symbols.insert symbol = .ok symbols ∧
        layout.Admits symbol.value symbol.kind ∧ layout' = { layout with symbols } := by
  unfold apply at happly
  dsimp only at happly
  split at happly
  · cases happly
  · split at happly
    · cases happly
    · obtain ⟨value, hargument, hdefine⟩ := exists_of_bind_eq_ok happly
      obtain ⟨symbols, hinsert, rfl⟩ := symbols_of_define hdefine
      exact ⟨_, symbols, hinsert, bounds_of_argument hargument, rfl⟩

theorem Bounded.applied {directive : Directive} (hbounded : layout.Bounded)
    (hother : directive ≠ .equ) (happlied : layout.Applied directive layout') :
    layout'.Bounded := by
  refine ⟨(happlied.keeps hbounded.anchored).1, fun symbol hsymbol => ?_⟩
  cases happlied with
  | enterData | enterText | emit => exact hbounded.admits symbol hsymbol
  | constant => exact absurd rfl hother
  | moveText target hempty htarget =>
      -- the labels of an empty section all stand at its start, so they all move
      have hstart : ∀ old ∈ layout.symbols.symbols,
          old.kind = .code → old.value = layout.textStart :=
        fun old hold hkind => hbounded.anchored.code old hold hkind hempty
      by_cases hkind : symbol.kind = .code
      · have hvalue := SymbolTable.value_of_mem_rebase hstart hsymbol hkind
        rw [hvalue, hkind]
        simp [Admits, textCursor, hempty]
      · have hold := hbounded.admits symbol (SymbolTable.mem_of_mem_rebase hsymbol hkind)
        cases hcases : symbol.kind with
        | code => exact absurd hcases hkind
        | data | constant =>
            rw [hcases] at hold
            exact hold
  | moveData target hempty htarget =>
      have hstart : ∀ old ∈ layout.symbols.symbols,
          old.kind = .data → old.value = layout.dataStart :=
        fun old hold hkind => hbounded.anchored.data old hold hkind hempty
      by_cases hkind : symbol.kind = .data
      · have hvalue := SymbolTable.value_of_mem_rebase hstart hsymbol hkind
        rw [hvalue, hkind]
        simp [Admits]
        omega
      · have hold := hbounded.admits symbol (SymbolTable.mem_of_mem_rebase hsymbol hkind)
        cases hcases : symbol.kind with
        | data => exact absurd hcases hkind
        | code | constant =>
            rw [hcases] at hold
            exact hold

theorem stable_bounded : Stable Bounded where
  label hbounded hplace := hbounded.placeLabel hplace
  entry := by
    intro layout entry hbounded hroom
    refine ⟨(keeps_push entry hroom hbounded.anchored).1, fun symbol hsymbol => ?_⟩
    have hold := hbounded.admits symbol hsymbol
    cases hkind : symbol.kind with
    | code =>
        rw [hkind] at hold
        simp only [Admits, textCursor, Array.size_push] at hold ⊢
        omega
    | data | constant =>
        rw [hkind] at hold
        exact hold
  directive := by
    intro layout layout' directive line column arguments hbounded happly
    by_cases hequ : directive = .equ
    · have hkeeps := (applied_of_apply happly).keeps
      subst hequ
      obtain ⟨symbol, symbols, hinsert, hadmits, rfl⟩ := symbol_of_equ happly
      exact hbounded.insert hkeeps hinsert hadmits
    · exact hbounded.applied hequ (applied_of_apply happly)

theorem bounded_of_ofLines {lines : List SourceLine} (hlayout : ofLines lines = .ok layout) :
    layout.Bounded :=
  stable_bounded.foldlM bounded_empty hlayout

/-! ## The values of operands -/

/-- The values of literals and of symbols.  Only a label behind the last instruction number
is more than a literal can be. -/
def Reaches (layout : Layout) (value : Int) : Prop :=
  Literal.minValue ≤ value ∧
    (value ≤ Literal.maxValue ∨ value = addressSpace ∧ layout.textCursor = addressSpace)

theorem Bounded.reaches {symbol : Symbol} (hbounded : layout.Bounded)
    (hmem : symbol ∈ layout.symbols.symbols) : layout.Reaches symbol.value := by
  have hadmits := hbounded.admits symbol hmem
  have hcursor := hbounded.anchored.textCursor_le
  unfold Reaches
  cases hkind : symbol.kind with
  | code | data | constant =>
      rw [hkind] at hadmits
      simp only [Admits, Literal.minValue, Literal.maxValue, addressSpace] at *
      omega

theorem reaches_of_number (hnumber : Literal.number token = .ok value) :
    layout.Reaches value := by
  unfold Literal.number at hnumber
  obtain ⟨unchecked, -, hrange⟩ := exists_of_bind_eq_ok hnumber
  obtain ⟨rfl, hmin, hmax⟩ := Literal.inRange_eq_ok_iff.mp hrange
  exact ⟨hmin, .inl hmax⟩

theorem Bounded.reaches_of_value (hbounded : layout.Bounded)
    (hvalue : Operand.value layout.symbols token = .ok value) : layout.Reaches value := by
  unfold Operand.value at hvalue
  split at hvalue
  · split at hvalue
    next hfound =>
      cases hvalue
      obtain ⟨symbol, hget, rfl⟩ := Option.map_eq_some_iff.mp hfound
      exact hbounded.reaches (SymbolTable.mem_of_get? hget)
    · cases hvalue
  · exact reaches_of_number (ok_of_mapError_eq_ok hvalue)

theorem mem_of_constant? {table : SymbolTable} (hconstant : table.constant? token = some value) :
    ∃ symbol ∈ table.symbols, symbol.value = value := by
  unfold SymbolTable.constant? at hconstant
  obtain ⟨symbol, hfilter, hvalue⟩ := Option.map_eq_some_iff.mp hconstant
  obtain ⟨hget, -⟩ := Option.filter_eq_some_iff.mp hfilter
  exact ⟨symbol, SymbolTable.mem_of_get? hget, hvalue⟩

theorem Bounded.reaches_of_parse (hbounded : layout.Bounded)
    (hparse : Operand.parse layout.symbols token = .ok (.immediate value)) :
    layout.Reaches value := by
  cases Operand.parsesTo_of_parse hparse with
  | value hvalue => exact hbounded.reaches_of_value hvalue
  | number hnumber => exact reaches_of_number hnumber
  | constant hconstant =>
      obtain ⟨symbol, hmem, rfl⟩ := mem_of_constant? hconstant
      exact hbounded.reaches hmem

/-! ## The instructions of an assembled program -/

theorem accepted_of_instruction {entry : Entry} {index : Nat} {instruction : Instruction}
    (hinstruction : layout.instruction entry index = .ok instruction) :
    instruction.opcode.check instruction.operands = .ok () := by
  unfold Layout.instruction at hinstruction
  obtain ⟨pieces, -, hrest⟩ := exists_of_bind_eq_ok hinstruction
  obtain ⟨operands, -, hcheck⟩ := exists_of_bind_eq_ok hrest
  split at hcheck
  · cases hcheck
  next haccepted =>
    cases hcheck
    exact haccepted

theorem exists_parse_of_instruction {entry : Entry} {index : Nat} {instruction : Instruction}
    {operand : Operand} (hinstruction : layout.instruction entry index = .ok instruction)
    (hoperand : operand ∈ instruction.operands) :
    ∃ token, Operand.parse layout.symbols token = .ok operand := by
  obtain ⟨pieces, operands, -, hparsed, rfl⟩ := of_instruction hinstruction
  obtain ⟨position, hposition, rfl⟩ := List.mem_iff_getElem.mp hoperand
  have hparse := hparsed.get (hparsed.length_eq ▸ hposition) hposition
  exact ⟨_, hparse⟩

theorem validate_of_program {program : Program} {instruction : Instruction}
    (hprogram : layout.program = .ok program) (hmem : instruction ∈ program.instructions) :
    layout.validate instruction = .ok () := by
  unfold Layout.program at hprogram
  obtain ⟨instructions, -, hrest⟩ := exists_of_bind_eq_ok hprogram
  obtain ⟨_, hall, hok⟩ := exists_of_bind_eq_ok hrest
  cases hok
  exact ok_of_forM_eq_ok hall (List.mem_toArray.mp hmem)

theorem instruction_of_mem {program : Program} {instruction : Instruction}
    (hprogram : layout.program = .ok program) (hmem : instruction ∈ program.instructions) :
    ∃ entry index, layout.instruction entry index = .ok instruction := by
  obtain ⟨instructions, hresolve, rfl⟩ := of_program hprogram
  obtain ⟨index, hindex⟩ := List.mem_iff_getElem?.mp (List.mem_toArray.mp hmem)
  obtain ⟨-, hresolved⟩ := of_resolve hresolve
  obtain ⟨entry, -, hinstruction⟩ := hresolved index instruction hindex
  exact ⟨entry, index, hinstruction⟩

/-- The name in an operand is defined, and is a code label if it is branched to. -/
theorem symbol_of_validate {instruction : Instruction} {operand : Operand} {name : Text}
    (hvalidate : layout.validate instruction = .ok ())
    (hoperand : operand ∈ instruction.operands) (hname : operand.labelName? = some name) :
    ∃ symbol,
      layout.symbols.get? name = some symbol ∧
        (instruction.opcode.isBranch = true → symbol.kind = .code) := by
  have hlisted : name ∈ instruction.operands.filterMap Operand.labelName? :=
    List.mem_filterMap.mpr ⟨operand, hoperand, hname⟩
  have hvalid := ok_of_forM_eq_ok hvalidate hlisted
  unfold validateName at hvalid
  split at hvalid
  · cases hvalid
  next symbol hget =>
    split at hvalid
    · cases hvalid
    next hkind =>
      refine ⟨symbol, hget, fun hbranch => ?_⟩
      by_cases hcode : symbol.kind = .code
      · exact hcode
      · exact absurd ⟨hbranch, hcode⟩ hkind

theorem checked_of_program {program : Program} {instruction : Instruction}
    (hprogram : layout.program = .ok program) (hmem : instruction ∈ program.instructions) :
    instruction.Checked program := by
  have hvalidate := validate_of_program hprogram hmem
  obtain ⟨entry, index, hinstruction⟩ := instruction_of_mem hprogram hmem
  refine ⟨accepted_of_instruction hinstruction, fun operand hoperand name hname => ?_⟩
  obtain ⟨symbol, hget, -⟩ := symbol_of_validate hvalidate hoperand hname
  obtain ⟨instructions, -, rfl⟩ := of_program hprogram
  rw [SymbolTable.value?, hget]
  rfl

theorem textCursor_of_program {lines : List SourceLine} {program : Program}
    (hlayout : ofLines lines = .ok layout) (hprogram : layout.program = .ok program) :
    program.textStart.toNat + program.instructions.size = layout.textCursor := by
  obtain ⟨-, htext, -⟩ := starts_of_ofLines hlayout
  obtain ⟨instructions, hresolve, rfl⟩ := of_program hprogram
  rw [htext, List.size_toArray, (of_resolve hresolve).1]
  rfl

end Layout

/-- Where an operand of a branch goes: to an instruction number, to a negative literal, or to
the end of a text section behind which there is no instruction number. -/
def Program.LeadsTo (program : Program) (operand : Operand) (value : Int) : Prop :=
  (0 ≤ value ∧ value ≤ 65535) ∨
    (operand = .immediate value ∧ -32768 ≤ value ∧ value < 0) ∨
      value = 65536 ∧ program.textStart.toNat + program.instructions.size = 65536

theorem Layout.leadsTo_of_program
    {layout : Layout} {lines : List SourceLine} {program : Program} {instruction : Instruction}
    (hlayout : ofLines lines = .ok layout) (hprogram : layout.program = .ok program)
    (hmem : instruction ∈ program.instructions) (hbranch : instruction.opcode.isBranch = true) :
    ∃ operand value,
      instruction.operands = [operand] ∧ program.targetValue? operand = some value ∧
        program.LeadsTo operand value := by
  have hbounded := bounded_of_ofLines hlayout
  have hcursor := textCursor_of_program hlayout hprogram
  have hfits := hbounded.anchored.textCursor_le
  obtain ⟨operand, value, honly, hvalue, -⟩ :=
    (checked_of_program hprogram hmem).target hbranch
  refine ⟨operand, value, honly, hvalue, ?_⟩
  unfold Program.LeadsTo
  cases operand with
  | register | memory => cases hvalue
  | immediate number =>
      cases hvalue
      have hoperand : Operand.immediate value ∈ instruction.operands := by simp [honly]
      obtain ⟨entry, index, hinstruction⟩ := instruction_of_mem hprogram hmem
      obtain ⟨token, hparse⟩ := exists_parse_of_instruction hinstruction hoperand
      have hreaches := hbounded.reaches_of_parse hparse
      simp only [Reaches, Literal.minValue, Literal.maxValue, addressSpace] at hreaches
      simp only [true_and]
      omega
  | label name =>
      have hvalidate := validate_of_program hprogram hmem
      have hoperand : Operand.label name ∈ instruction.operands := by simp [honly]
      obtain ⟨symbol, hget, hcode⟩ := symbol_of_validate hvalidate hoperand rfl
      have hadmits := hbounded.admits symbol (SymbolTable.mem_of_get? hget)
      rw [hcode hbranch] at hadmits
      obtain ⟨instructions, -, rfl⟩ := of_program hprogram
      have hsame : symbol.value = value := by
        simpa [Program.targetValue?, SymbolTable.value?, hget] using hvalue
      simp only [Admits, addressSpace] at hadmits hfits
      omega

/-! ## Running an assembled program -/

theorem Program.mem_of_instructionAt? {program : Program} {address : Word}
    {instruction : Instruction} (hinstruction : program.instructionAt? address = some instruction) :
    instruction ∈ program.instructions := by
  unfold Program.instructionAt? at hinstruction
  split at hinstruction
  · exact Array.mem_of_getElem? hinstruction
  · cases hinstruction

namespace Machine

variable {calls : Handler} {program : Program} {machine machine' : Machine}
  {failure : Failure}

theorem steps_eq_error_iff {count : Nat} :
    (steps calls program count).run machine = .error failure machine' ↔
      ∃ earlier before,
        earlier < count ∧ (steps calls program earlier).run machine = .ok () before ∧
          (step (calls earlier) program).run before = .error failure machine' := by
  induction count with
  | zero =>
      constructor
      · exact nofun
      · rintro ⟨earlier, before, hlt, -⟩
        exact absurd hlt (Nat.not_lt_zero earlier)
  | succ count ih =>
      rw [steps, EStateM.run_bind]
      constructor
      · intro hfails
        cases hsteps : (steps calls program count).run machine with
        | error failure before =>
            rw [hsteps] at hfails
            cases hfails
            obtain ⟨earlier, before, hlt, hrest⟩ := ih.mp hsteps
            exact ⟨earlier, before, Nat.lt_succ_of_lt hlt, hrest⟩
        | ok value before =>
            rw [hsteps] at hfails
            exact ⟨count, before, Nat.lt_succ_self count, hsteps, hfails⟩
      · rintro ⟨earlier, before, hlt, hsteps, hstep⟩
        rcases Nat.lt_succ_iff_lt_or_eq.mp hlt with hearlier | rfl
        · rw [ih.mpr ⟨earlier, before, hearlier, hsteps, hstep⟩]
        · rw [hsteps]
          exact hstep

/-- Where every instruction is checked, a step blames an operand exactly at a branch that
goes astray. -/
theorem step_blames_iff
    (hchecked : ∀ instruction ∈ program.instructions, instruction.Checked program) :
    (step .standard program).run machine = .error failure machine' ∧ failure.BlamesOperand ↔
      machine' = machine ∧ machine.cpu.halted = false ∧
        ∃ instruction,
          program.instructionAt? machine.cpu.instructionPointer = some instruction ∧
            machine.Strays program instruction ∧
              failure = .fault (.invalidOperand instruction.opcode 1) := by
  constructor
  · rintro ⟨hstep, hblames⟩
    have hrunning : machine.cpu.halted = false := by
      cases hhalted : machine.cpu.halted with
      | false => rfl
      | true =>
          rw [step_of_halted hhalted] at hstep
          cases hstep
    obtain ⟨instruction, hinstruction⟩ := exists_instruction_of_step_error program hstep
    have hexecute := (step_eq_error_iff hrunning hinstruction).mp hstep
    have hmember := hchecked instruction (Program.mem_of_instructionAt? hinstruction)
    by_cases hstrays : machine.Strays program instruction
    · rw [execute_of_strays hmember hstrays] at hexecute
      cases hexecute
      exact ⟨rfl, hrunning, instruction, hinstruction, hstrays, rfl⟩
    · exact absurd hblames (not_blamesOperand_of_not_strays hmember hstrays hexecute)
  · rintro ⟨rfl, hrunning, instruction, hinstruction, hstrays, rfl⟩
    have hmember := hchecked instruction (Program.mem_of_instructionAt? hinstruction)
    refine ⟨?_, trivial⟩
    rw [step_eq_error_iff hrunning hinstruction]
    exact execute_of_strays hmember hstrays

end Machine

/-- An assembled program never meets an undefined name.  It blames an operand exactly where it
comes to a branch that it takes and whose operand is no instruction number, and such an operand
is a negative literal or the end of a text section that reaches the last instruction number. -/
theorem assembled_blames_only_strays
    (source : Text) (program : Program) (count : Nat)
    (hassemble : assemble source = .ok program) :
    let start := Machine.ofProgram program
    let run := (Machine.steps .standard program count).run start
    (∀ name machine, run ≠ .error (.fault (.undefinedSymbol name)) machine) ∧
      (∀ opcode position machine,
        run = .error (.fault (.invalidOperand opcode position)) machine ↔
          ∃ earlier instruction,
            earlier < count ∧
              (Machine.steps .standard program earlier).run start = .ok () machine ∧
                machine.cpu.halted = false ∧
                  program.instructionAt? machine.cpu.instructionPointer = some instruction ∧
                    machine.Strays program instruction ∧
                      opcode = instruction.opcode ∧ position = 1) ∧
        ∀ instruction ∈ program.instructions, instruction.opcode.isBranch = true →
          ∃ operand value,
            instruction.operands = [operand] ∧ program.targetValue? operand = some value ∧
              program.LeadsTo operand value := by
  intro start run
  obtain ⟨layout, hlayout, hprogram⟩ := exists_of_bind_eq_ok hassemble
  have hchecked : ∀ instruction ∈ program.instructions, instruction.Checked program :=
    fun instruction hmem => Layout.checked_of_program hprogram hmem
  refine ⟨?_, ?_, ?_⟩
  · intro name machine herror
    obtain ⟨earlier, before, -, -, hstep⟩ := Machine.steps_eq_error_iff.mp herror
    obtain ⟨-, -, instruction, -, -, hfailure⟩ :=
      (Machine.step_blames_iff hchecked).mp ⟨hstep, trivial⟩
    cases hfailure
  · intro opcode position machine
    constructor
    · intro herror
      obtain ⟨earlier, before, hlt, hsteps, hstep⟩ := Machine.steps_eq_error_iff.mp herror
      obtain ⟨rfl, hrunning, instruction, hinstruction, hstrays, hfailure⟩ :=
        (Machine.step_blames_iff hchecked).mp ⟨hstep, trivial⟩
      cases hfailure
      exact ⟨earlier, instruction, hlt, hsteps, hrunning, hinstruction, hstrays, rfl, rfl⟩
    · rintro ⟨earlier, instruction, hlt, hsteps, hrunning, hinstruction, hstrays, rfl, rfl⟩
      obtain ⟨hstep, -⟩ := (Machine.step_blames_iff hchecked).mpr
        ⟨rfl, hrunning, instruction, hinstruction, hstrays, rfl⟩
      exact Machine.steps_eq_error_iff.mpr ⟨earlier, machine, hlt, hsteps, hstep⟩
  · intro instruction hmem hbranch
    exact Layout.leadsTo_of_program hlayout hprogram hmem hbranch

/-- A jump to no instruction number, as it is assembled from `JMP -1`. -/
def Program.strayingJump : Program where
  instructions :=
    #[{ opcode := .jmp, operands := [.immediate (-1)],
        line := 1, column := 1, source := "JMP -1".toList, address := 0 }]
  symbols := {}
  data := #[]
  textStart := 0
  dataStart := 0

theorem assembled_blames_only_strays_jump :
    let start := Machine.ofProgram .strayingJump
    assemble "JMP -1".toList = .ok .strayingJump ∧
      (Machine.steps .standard .strayingJump 3).run start =
        .error (.fault (.invalidOperand .jmp 1)) start := by
  intro start
  have hassemble : assemble "JMP -1".toList = .ok .strayingJump := by rfl
  obtain ⟨-, hblames, -⟩ := assembled_blames_only_strays "JMP -1".toList .strayingJump 3 hassemble
  have hstrays : start.Strays .strayingJump Program.strayingJump.instructions[0] :=
    ⟨rfl, .immediate (-1), -1, rfl, rfl, by decide⟩
  refine ⟨hassemble, (hblames .jmp 1 start).mpr ?_⟩
  exact ⟨0, _, by decide, rfl, rfl, rfl, hstrays, rfl, rfl⟩

/-- Not every source text that assembles is free of operands that cannot be executed. -/
theorem not_assembled_never_strays :
    ¬∀ source program count opcode position machine,
      assemble source = .ok program →
        (Machine.steps .standard program count).run (Machine.ofProgram program) ≠
          .error (.fault (.invalidOperand opcode position)) machine := by
  intro hnever
  let start := Machine.ofProgram .strayingJump
  have hassemble : assemble "JMP -1".toList = .ok .strayingJump := by rfl
  have hstep : (Machine.step .standard .strayingJump).run start =
      .error (.fault (.invalidOperand .jmp 1)) start := by
    rfl
  have hsteps : (Machine.steps .standard .strayingJump 1).run start =
      .error (.fault (.invalidOperand .jmp 1)) start :=
    Machine.steps_eq_error_iff.mpr ⟨0, start, Nat.one_pos, rfl, hstep⟩
  exact hnever "JMP -1".toList .strayingJump 1 .jmp 1 start hassemble hsteps

end WordMachine
