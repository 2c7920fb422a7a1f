import WordMachine.Assembly.Layout
import WordMachine.Proofs.OperandLists
import WordMachine.Proofs.Outcomes

/-!
# What placing a line can do

A line defines a label, adds an instruction, or carries out a directive, and a
directive enters a section, moves an empty one, emits bytes or defines a
constant.  What has been placed stays placed: entries and data are only added
to, and a label moves exactly as its section does.  The last holds because all
labels of an empty section stand at its start, which is what an origin looks for
when it moves them.
-/

namespace WordMachine

namespace Layout

variable {layout middle layout' : Layout} {line column : Nat}

/-! ## What a statement comes to -/

theorem checkedCursor_eq_ok_iff {cursor : Nat} :
    layout.checkedCursor = .ok cursor ↔
      layout.dataCursor < 4294967296 ∧ layout.dataCursor = cursor := by
  unfold checkedCursor
  split
  next hfits => simp [hfits]
  next hfits => simp [hfits]

theorem symbols_of_define
    {name : Piece} {value : Int} {kind : SymbolKind}
    (hdefine : layout.define name line value kind = .ok layout') :
    ∃ symbols,
      layout.symbols.insert { name := name.text, value, kind, line } = .ok symbols ∧
        layout' = { layout with symbols } := by
  unfold define at hdefine
  split at hdefine
  next symbols hinsert =>
    cases hdefine
    exact ⟨symbols, hinsert, rfl⟩
  · cases hdefine

def labelSymbol (layout : Layout) (label : Piece) (line : Nat) : Symbol :=
  match layout.current with
  | .text => { name := label.text, value := layout.textCursor, kind := .code, line }
  | .data => { name := label.text, value := layout.dataCursor, kind := .data, line }

theorem symbols_of_placeLabel
    {label : Piece} (hplace : layout.placeLabel label line = .ok layout') :
    ∃ symbols,
      layout.symbols.insert (layout.labelSymbol label line) = .ok symbols ∧
        layout' = { layout with symbols } := by
  unfold placeLabel at hplace
  split at hplace
  · cases hplace
  · split at hplace
    next hcurrent =>
      obtain ⟨cursor, hcursor, hdefine⟩ := exists_of_bind_eq_ok hplace
      obtain ⟨-, rfl⟩ := checkedCursor_eq_ok_iff.mp hcursor
      split at hdefine
      · cases hdefine
      · have hsymbol : layout.labelSymbol label line =
            { name := label.text, value := layout.dataCursor, kind := .data, line } := by
          rw [labelSymbol, hcurrent]
        rw [hsymbol]
        exact symbols_of_define hdefine
    next hcurrent =>
      have hsymbol : layout.labelSymbol label line =
          { name := label.text, value := layout.textCursor, kind := .code, line } := by
        rw [labelSymbol, hcurrent]
      rw [hsymbol]
      exact symbols_of_define hplace

def entryOf? (number : Nat) (statement : Piece) : Option Entry :=
  (Opcode.ofText? statement.splitWord.1.text).map fun opcode =>
    { opcode, line := number, column := statement.column, source := statement.text
      operands := statement.splitWord.2 }

theorem entry_of_placeInstruction
    {statement : Piece} (hplace : layout.placeInstruction statement line = .ok layout') :
    ∃ entry,
      entryOf? line statement = some entry ∧ layout.textCursor < addressSpace ∧
        layout' = { layout with entries := layout.entries.push entry } := by
  unfold placeInstruction at hplace
  dsimp only at hplace
  split at hplace
  · cases hplace
  next opcode hopcode =>
    split at hplace
    · cases hplace
    · split at hplace
      · cases hplace
      next hroom =>
        cases hplace
        refine ⟨_, ?_, Nat.lt_of_not_le hroom, rfl⟩
        rw [entryOf?, hopcode]
        rfl

/-- All that a directive can do to a layout. -/
inductive Applied (layout : Layout) : Directive → Layout → Prop
  | enterData : Applied layout .data { layout with current := .data }
  | enterText : Applied layout .text { layout with current := .text }
  | moveText (target : Nat) :
      layout.entries = #[] → target < addressSpace →
        Applied layout .org
          { layout with
            symbols := layout.symbols.rebase .code layout.textStart target
            textStart := target }
  | moveData (target : Nat) :
      layout.data = #[] → target < addressSpace →
        Applied layout .org
          { layout with
            symbols := layout.symbols.rebase .data layout.dataStart target
            dataStart := target }
  | emit (directive : Directive) (data : Array UInt8) :
      directive ≠ .data → directive ≠ .text → layout.data.toList <+: data.toList →
        Applied layout directive { layout with data }
  | constant (symbol : Symbol) (symbols : SymbolTable) :
      symbol.kind = .constant → layout.symbols.insert symbol = .ok symbols →
        Applied layout .equ { layout with symbols }

theorem bounds_of_argument
    {piece : Piece} {min max value : Int}
    (hargument : layout.argument line min max piece = .ok value) :
    min ≤ value ∧ value ≤ max := by
  unfold argument at hargument
  dsimp only at hargument
  split at hargument
  next hresult =>
    cases hargument
    obtain ⟨found, -, hrange⟩ := exists_of_bind_eq_ok hresult
    obtain ⟨rfl, hbounds⟩ := Literal.inRange_eq_ok_iff.mp (ok_of_mapError_eq_ok hrange)
    exact hbounds
  · cases hargument

theorem applied_of_pad
    {directive : Directive} (hdata : directive ≠ .data) (htext : directive ≠ .text)
    (count : Nat) :
    layout.Applied directive (layout.pad count) := by
  refine .emit directive _ hdata htext ?_
  rw [Array.toList_append]
  exact List.prefix_append _ _

theorem applied_of_emitEach
    {directive : Directive} {wrongArguments : AssemblyFailure}
    {bytes : Piece → Except AssemblyFailure (List UInt8)} {arguments : List Piece}
    (hdata : directive ≠ .data) (htext : directive ≠ .text)
    (hemit : layout.emitEach wrongArguments bytes arguments = .ok layout') :
    layout.Applied directive layout' := by
  unfold emitEach at hemit
  split at hemit
  · cases hemit
  · obtain ⟨parts, -, hparts⟩ := exists_of_bind_eq_ok hemit
    cases hparts
    refine .emit directive _ hdata htext ?_
    rw [Array.toList_appendList]
    exact List.prefix_append _ _

theorem applied_of_origin
    {target : Nat} (htarget : target < addressSpace)
    (horigin : layout.origin target line column = .ok layout') :
    layout.Applied .org layout' := by
  unfold origin at horigin
  split at horigin
  · split at horigin
    · cases horigin
    next hentries =>
      cases horigin
      exact .moveText target (by simpa using hentries) htarget
  · split at horigin
    next hdata =>
      cases horigin
      exact .moveData target (Array.isEmpty_iff.mp hdata) htarget
    · obtain ⟨cursor, -, hpad⟩ := exists_of_bind_eq_ok horigin
      split at hpad
      · cases hpad
      · cases hpad
        exact applied_of_pad (by decide) (by decide) _

theorem applied_of_apply
    {directive : Directive} {arguments : List Piece}
    (happly : layout.apply directive line column arguments = .ok layout') :
    layout.Applied directive layout' := by
  unfold apply at happly
  cases directive with
  | data =>
      dsimp only at happly
      split at happly
      · cases happly
        exact .enterData
      · cases happly
  | text =>
      dsimp only at happly
      split at happly
      · cases happly
        exact .enterText
      · cases happly
  | org =>
      dsimp only at happly
      split at happly
      · obtain ⟨target, hargument, horigin⟩ := exists_of_bind_eq_ok happly
        obtain ⟨-, hmax⟩ := bounds_of_argument hargument
        exact applied_of_origin (by unfold addressSpace; omega) horigin
      · cases happly
  | equ =>
      dsimp only at happly
      split at happly
      · cases happly
      · split at happly
        · cases happly
        · obtain ⟨value, -, hdefine⟩ := exists_of_bind_eq_ok happly
          obtain ⟨symbols, hinsert, rfl⟩ := symbols_of_define hdefine
          exact .constant _ symbols rfl hinsert
  | byte | word | ascii | asciz => exact applied_of_emitEach (by decide) (by decide) happly
  | space =>
      dsimp only at happly
      split at happly
      · obtain ⟨count, -, hpad⟩ := exists_of_bind_eq_ok happly
        cases hpad
        exact applied_of_pad (by decide) (by decide) _
      · cases happly
  | align =>
      dsimp only at happly
      split at happly
      · obtain ⟨value, -, hpad⟩ := exists_of_bind_eq_ok happly
        split at hpad
        · obtain ⟨cursor, -, hpadded⟩ := exists_of_bind_eq_ok hpad
          cases hpadded
          exact applied_of_pad (by decide) (by decide) _
        · cases hpad
      · cases happly

/-- The operands that follow a word, however many of their brackets are open. -/
def cutOperands (rest : Option Piece) : List Piece := (rest.map Piece.cut).getD []

theorem eq_cutOperands {rest : Option Piece} {pieces : List Piece}
    (hpieces : operandPieces rest = .ok pieces) : pieces = cutOperands rest := by
  unfold operandPieces at hpieces
  split at hpieces
  · cases hpieces
    rfl
  next rest =>
    split at hpieces
    next hsplit =>
      cases hpieces
      exact Piece.eq_cut_of_splitOperands hsplit
    · cases hpieces

theorem operandPieces_some {piece : Piece} {pieces : List Piece}
    (hsplit : piece.splitOperands = some pieces) : operandPieces (some piece) = .ok pieces := by
  simp only [operandPieces, hsplit]

/-- A directive is applied to its operands, and the data may end nowhere but in memory then. -/
theorem apply_of_placeDirective
    {statement : Piece} (hplace : layout.placeDirective statement line = .ok layout') :
    ∃ directive,
      Directive.ofText? statement.splitWord.1.text = some directive ∧
        layout.apply directive line statement.column
            (cutOperands statement.splitWord.2) = .ok layout' ∧
          layout'.dataCursor ≤ addressSpace := by
  unfold placeDirective at hplace
  dsimp only at hplace
  split at hplace
  · cases hplace
  next directive hdirective =>
    split at hplace
    · cases hplace
    · obtain ⟨pieces, hpieces, hrest⟩ := exists_of_bind_eq_ok hplace
      obtain ⟨applied, happly, hcounted⟩ := exists_of_bind_eq_ok hrest
      obtain ⟨cursor, hcursor, hroom⟩ := exists_of_bind_eq_ok hcounted
      obtain ⟨-, rfl⟩ := checkedCursor_eq_ok_iff.mp hcursor
      obtain rfl := eq_cutOperands hpieces
      split at hroom
      · cases hroom
      next hends =>
        cases hroom
        exact ⟨directive, hdirective, happly, Nat.le_of_not_lt hends⟩

theorem applied_of_placeDirective
    {statement : Piece} (hplace : layout.placeDirective statement line = .ok layout') :
    ∃ directive,
      Directive.ofText? statement.splitWord.1.text = some directive ∧
        layout.Applied directive layout' := by
  obtain ⟨directive, hdirective, happly, -⟩ := apply_of_placeDirective hplace
  exact ⟨directive, hdirective, applied_of_apply happly⟩

/-! ## Where the data ends -/

/-- One past the address of the last data byte. -/
def dataEnd (layout : Layout) : Nat := layout.dataStart + layout.data.size

theorem dataCursor_le_dataEnd (layout : Layout) : layout.dataCursor ≤ layout.dataEnd :=
  Nat.add_le_add_left (Nat.mod_le _ _) _

theorem dataCursor_eq_dataEnd (hcounted : layout.dataEnd < 4294967296) :
    layout.dataCursor = layout.dataEnd := by
  unfold dataEnd at hcounted
  rw [dataCursor, dataEnd, Nat.mod_eq_of_lt (by omega)]

theorem dataEnd_lt_of_le (hends : layout.dataEnd ≤ addressSpace) : layout.dataEnd < 4294967296 :=
  Nat.lt_of_le_of_lt hends (by decide)

theorem dataEnd_pad (layout : Layout) (count : Nat) :
    (layout.pad count).dataEnd = layout.dataEnd + count := by
  simp only [pad, dataEnd, Array.size_append, Array.size_replicate, Nat.add_assoc]

theorem dataEnd_emit (layout : Layout) (bytes : List UInt8) :
    (layout.emit bytes).dataEnd = layout.dataEnd + bytes.length := by
  have hsize : (layout.data ++ bytes).size = layout.data.size + bytes.length := by
    rw [← Array.length_toList, Array.toList_appendList, List.length_append, Array.length_toList]
  simp only [emit, dataEnd, hsize, Nat.add_assoc]

/-! ## Labels of an empty section -/

/-- All labels of an empty section stand at its start, and everything placed has room. -/
structure Anchored (layout : Layout) : Prop where
  code : ∀ symbol ∈ layout.symbols.symbols, symbol.kind = .code →
    layout.entries = #[] → symbol.value = layout.textStart
  data : ∀ symbol ∈ layout.symbols.symbols, symbol.kind = .data →
    layout.data = #[] → symbol.value = layout.dataStart
  textStart_lt : layout.textStart < addressSpace
  textCursor_le : layout.textCursor ≤ addressSpace
  dataStart_lt : layout.dataStart < addressSpace

theorem anchored_empty : Anchored {} where
  code := nofun
  data := nofun
  textStart_lt := by decide
  textCursor_le := by decide
  dataStart_lt := by decide

def shift (layout layout' : Layout) : SymbolKind → Int
  | .code => layout'.textStart - layout.textStart
  | .data => layout'.dataStart - layout.dataStart
  | .constant => 0

/-- A symbol of the first layout, moved as its section has moved in the second. -/
def carry (layout layout' : Layout) (symbol : Symbol) : Symbol :=
  { symbol with value := symbol.value + layout.shift layout' symbol.kind }

/-- Everything in the first layout is in the second, moved as its section has moved. -/
structure Extends (layout layout' : Layout) : Prop where
  entries : layout.entries.toList <+: layout'.entries.toList
  data : layout.data.toList <+: layout'.data.toList
  symbols : ∀ name symbol, layout.symbols.get? name = some symbol →
    layout'.symbols.get? name = some (layout.carry layout' symbol)

theorem carry_of_shift_eq_zero
    {symbol : Symbol} (hshift : layout.shift layout' symbol.kind = 0) :
    layout.carry layout' symbol = symbol := by
  rw [carry, hshift, Int.add_zero]

theorem shift_of_start_eq
    (htext : layout'.textStart = layout.textStart) (hdata : layout'.dataStart = layout.dataStart)
    (kind : SymbolKind) : layout.shift layout' kind = 0 := by
  cases kind with
  | code => rw [shift, htext, Int.sub_self]
  | data => rw [shift, hdata, Int.sub_self]
  | constant => rfl

theorem shift_add_shift (kind : SymbolKind) :
    layout.shift middle kind + middle.shift layout' kind = layout.shift layout' kind := by
  cases kind with
  | code | data =>
      simp only [shift]
      omega
  | constant => rfl

theorem carry_carry (symbol : Symbol) :
    middle.carry layout' (layout.carry middle symbol) = layout.carry layout' symbol := by
  simp only [carry, Int.add_assoc, shift_add_shift]

theorem Extends.of_start_eq
    (hentries : layout.entries.toList <+: layout'.entries.toList)
    (hdata : layout.data.toList <+: layout'.data.toList)
    (htextStart : layout'.textStart = layout.textStart)
    (hdataStart : layout'.dataStart = layout.dataStart)
    (hsymbols : ∀ name symbol, layout.symbols.get? name = some symbol →
      layout'.symbols.get? name = some symbol) :
    layout.Extends layout' where
  entries := hentries
  data := hdata
  symbols name symbol hget := by
    rw [carry_of_shift_eq_zero (shift_of_start_eq htextStart hdataStart symbol.kind)]
    exact hsymbols name symbol hget

theorem Extends.refl (layout : Layout) : layout.Extends layout :=
  .of_start_eq List.prefix_rfl List.prefix_rfl rfl rfl fun _ _ hget => hget

theorem Extends.trans
    (hfirst : layout.Extends middle) (hsecond : middle.Extends layout') :
    layout.Extends layout' where
  entries := hfirst.entries.trans hsecond.entries
  data := hfirst.data.trans hsecond.data
  symbols name symbol hget := by
    have hcarry : middle.carry layout' (layout.carry middle symbol) =
        layout.carry layout' symbol := carry_carry symbol
    rw [← hcarry]
    exact hsecond.symbols name _ (hfirst.symbols name symbol hget)

def Keeps (layout layout' : Layout) : Prop :=
  layout.Anchored → layout'.Anchored ∧ layout.Extends layout'

theorem Keeps.refl (layout : Layout) : layout.Keeps layout :=
  fun hanchored => ⟨hanchored, .refl layout⟩

theorem Keeps.trans (hfirst : layout.Keeps middle) (hsecond : middle.Keeps layout') :
    layout.Keeps layout' := by
  intro hanchored
  obtain ⟨hmiddle, hextends⟩ := hfirst hanchored
  obtain ⟨hanchored', hextends'⟩ := hsecond hmiddle
  exact ⟨hanchored', hextends.trans hextends'⟩

theorem keeps_enter (current : Section) : layout.Keeps { layout with current } := by
  intro hanchored
  constructor
  · exact ⟨hanchored.code, hanchored.data, hanchored.textStart_lt, hanchored.textCursor_le,
      hanchored.dataStart_lt⟩
  · exact .of_start_eq List.prefix_rfl List.prefix_rfl rfl rfl fun _ _ hget => hget

theorem keeps_define
    {symbol : Symbol} {symbols : SymbolTable}
    (hcode : symbol.kind = .code → symbol.value = layout.textCursor)
    (hdata : symbol.kind = .data → symbol.value = layout.dataCursor)
    (hinsert : layout.symbols.insert symbol = .ok symbols) :
    layout.Keeps { layout with symbols } := by
  intro hanchored
  obtain ⟨-, hsymbols⟩ := SymbolTable.symbols_insert hinsert
  have hmem : ∀ other ∈ symbols.symbols, other ∈ layout.symbols.symbols ∨ other = symbol := by
    intro other hother
    rw [hsymbols, List.mem_append, List.mem_singleton] at hother
    exact hother
  constructor
  -- while a section is empty, its cursor is its start
  · refine ⟨?_, ?_, hanchored.textStart_lt, hanchored.textCursor_le, hanchored.dataStart_lt⟩
    · intro other hother hkind hempty
      rcases hmem other hother with hold | rfl
      · exact hanchored.code other hold hkind hempty
      · dsimp only at hempty
        rw [hcode hkind, textCursor, hempty]
        rfl
    · intro other hother hkind hempty
      rcases hmem other hother with hold | rfl
      · exact hanchored.data other hold hkind hempty
      · dsimp only at hempty
        rw [hdata hkind, dataCursor, hempty]
        rfl
  · exact .of_start_eq List.prefix_rfl List.prefix_rfl rfl rfl
      fun _ _ hget => SymbolTable.get?_insert_of_get? hinsert hget

theorem keeps_push
    (entry : Entry) (hroom : layout.textCursor < addressSpace) :
    layout.Keeps { layout with entries := layout.entries.push entry } := by
  intro hanchored
  constructor
  · refine ⟨?_, hanchored.data, hanchored.textStart_lt, ?_, hanchored.dataStart_lt⟩
    · intro symbol hsymbol hkind hempty
      exact absurd hempty Array.push_ne_empty
    · rw [textCursor, Array.size_push]
      exact hroom
  · refine .of_start_eq ?_ List.prefix_rfl rfl rfl fun _ _ hget => hget
    rw [Array.toList_push]
    exact List.prefix_append _ _

theorem keeps_emit
    (data : Array UInt8) (hdata : layout.data.toList <+: data.toList) :
    layout.Keeps { layout with data } := by
  intro hanchored
  constructor
  · refine ⟨hanchored.code, ?_, hanchored.textStart_lt, hanchored.textCursor_le,
      hanchored.dataStart_lt⟩
    intro symbol hsymbol hkind hempty
    dsimp only at hempty
    rw [hempty] at hdata
    exact hanchored.data symbol hsymbol hkind
      (Array.toList_eq_nil_iff.mp (List.prefix_nil.mp hdata))
  · exact .of_start_eq List.prefix_rfl hdata rfl rfl fun _ _ hget => hget

/-- Symbols that all stand at the start of their section are carried by rebasing them. -/
theorem get?_rebase_eq_carry
    {kind : SymbolKind} {start target : Int} {name : Text} {symbol : Symbol}
    (hstart : ∀ symbol ∈ layout.symbols.symbols, symbol.kind = kind → symbol.value = start)
    (hshift : layout.shift layout' kind = target - start)
    (hothers : ∀ other, other ≠ kind → layout.shift layout' other = 0)
    (hget : layout.symbols.get? name = some symbol) :
    (layout.symbols.rebase kind start target).get? name = some (layout.carry layout' symbol) := by
  rw [SymbolTable.get?_rebase, hget, Option.map_some]
  by_cases hkind : symbol.kind = kind
  · have hvalue := hstart symbol (SymbolTable.mem_of_get? hget) hkind
    have htarget : start + (target - start) = target := by omega
    rw [if_pos ⟨hkind, hvalue⟩, carry, hkind, hvalue, hshift, htarget]
  · rw [if_neg fun hmoved => hkind hmoved.1, carry_of_shift_eq_zero (hothers _ hkind)]

theorem keeps_moveText
    {target : Nat} (hempty : layout.entries = #[]) (htarget : target < addressSpace) :
    layout.Keeps
      { layout with
        symbols := layout.symbols.rebase .code layout.textStart target
        textStart := target } := by
  intro hanchored
  have hstart : ∀ symbol ∈ layout.symbols.symbols,
      symbol.kind = .code → symbol.value = layout.textStart :=
    fun symbol hmem hkind => hanchored.code symbol hmem hkind hempty
  constructor
  · refine ⟨?_, ?_, htarget, ?_, hanchored.dataStart_lt⟩
    · intro symbol hmem hkind _
      exact SymbolTable.value_of_mem_rebase hstart hmem hkind
    · intro symbol hmem hkind hnone
      have hother : symbol.kind ≠ .code := by simp [hkind]
      exact hanchored.data symbol (SymbolTable.mem_of_mem_rebase hmem hother) hkind hnone
    · rw [textCursor, hempty]
      exact Nat.le_of_lt htarget
  · refine ⟨List.prefix_rfl, List.prefix_rfl, ?_⟩
    intro name symbol hget
    refine get?_rebase_eq_carry hstart rfl ?_ hget
    intro other hother
    cases other with
    | code => exact absurd rfl hother
    | data => exact Int.sub_self _
    | constant => rfl

theorem keeps_moveData
    {target : Nat} (hempty : layout.data = #[]) (htarget : target < addressSpace) :
    layout.Keeps
      { layout with
        symbols := layout.symbols.rebase .data layout.dataStart target
        dataStart := target } := by
  intro hanchored
  have hstart : ∀ symbol ∈ layout.symbols.symbols,
      symbol.kind = .data → symbol.value = layout.dataStart :=
    fun symbol hmem hkind => hanchored.data symbol hmem hkind hempty
  constructor
  · refine ⟨?_, ?_, hanchored.textStart_lt, hanchored.textCursor_le, htarget⟩
    · intro symbol hmem hkind hnone
      have hother : symbol.kind ≠ .data := by simp [hkind]
      exact hanchored.code symbol (SymbolTable.mem_of_mem_rebase hmem hother) hkind hnone
    · intro symbol hmem hkind _
      exact SymbolTable.value_of_mem_rebase hstart hmem hkind
  · refine ⟨List.prefix_rfl, List.prefix_rfl, ?_⟩
    intro name symbol hget
    refine get?_rebase_eq_carry hstart rfl ?_ hget
    intro other hother
    cases other with
    | code => exact Int.sub_self _
    | data => exact absurd rfl hother
    | constant => rfl

theorem Applied.keeps {directive : Directive} (happlied : layout.Applied directive layout') :
    layout.Keeps layout' := by
  cases happlied with
  | enterData | enterText => exact keeps_enter _
  | moveText target hempty htarget => exact keeps_moveText hempty htarget
  | moveData target hempty htarget => exact keeps_moveData hempty htarget
  | emit _ data _ _ hdata => exact keeps_emit data hdata
  | constant symbol symbols hkind hinsert =>
      refine keeps_define ?_ ?_ hinsert
      · intro hcode
        rw [hkind] at hcode
        cases hcode
      · intro hdata
        rw [hkind] at hdata
        cases hdata

theorem keeps_placeLabel
    {label : Piece} (hplace : layout.placeLabel label line = .ok layout') :
    layout.Keeps layout' := by
  obtain ⟨symbols, hinsert, rfl⟩ := symbols_of_placeLabel hplace
  refine keeps_define ?_ ?_ hinsert
  · unfold labelSymbol
    split
    · exact fun _ => rfl
    · exact nofun
  · unfold labelSymbol
    split
    · exact nofun
    · exact fun _ => rfl

end Layout
end WordMachine
