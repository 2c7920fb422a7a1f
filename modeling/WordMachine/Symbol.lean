import WordMachine.Isa.Register

/-!
# Symbols

Labels and constants share one table, which keeps the order of definition and
holds no two names that are equal up to letter case.
-/

namespace WordMachine

inductive SymbolKind
  /-- An instruction index. -/
  | code
  /-- A byte address. -/
  | data
  | constant
  deriving DecidableEq

structure Symbol where
  /-- The name as it is spelled where it is defined. -/
  name : Text
  value : Int
  kind : SymbolKind
  line : Nat
  deriving DecidableEq

structure SymbolTable where
  /-- The symbols in order of definition. -/
  symbols : List Symbol := []
  deriving DecidableEq

namespace SymbolTable

def get? (table : SymbolTable) (name : Text) : Option Symbol :=
  table.symbols.find? (Text.sameWord ·.name name)

/-- Add a symbol, or answer the one that has its name already. -/
def insert (table : SymbolTable) (symbol : Symbol) : Except Symbol SymbolTable :=
  match table.get? symbol.name with
  | some first => .error first
  | none => .ok ⟨table.symbols ++ [symbol]⟩

/-- The first label of the instruction at an index. -/
def codeLabelAt? (table : SymbolTable) (address : Word) : Option Symbol :=
  table.symbols.find? fun symbol => symbol.kind == .code && symbol.value == address.toNat

/-- Move every symbol of a kind from one value to another. -/
def rebase (table : SymbolTable) (kind : SymbolKind) (source target : Int) : SymbolTable :=
  ⟨table.symbols.map fun symbol =>
    if symbol.kind = kind ∧ symbol.value = source then { symbol with value := target }
    else symbol⟩

/-- The value of a label or constant. -/
def value? (table : SymbolTable) (name : Text) : Option Int :=
  (table.get? name).map (·.value)

def constant? (table : SymbolTable) (name : Text) : Option Int :=
  ((table.get? name).filter (·.kind == .constant)).map (·.value)

/-! ## What a name stands for -/

variable {table table' : SymbolTable} {symbol other : Symbol} {name : Text}

theorem mem_of_get? (hget : table.get? name = some symbol) : symbol ∈ table.symbols :=
  List.mem_of_find?_eq_some hget

theorem symbols_insert (hinsert : table.insert symbol = .ok table') :
    table.get? symbol.name = none ∧ table'.symbols = table.symbols ++ [symbol] := by
  unfold insert at hinsert
  split at hinsert
  · cases hinsert
  next hnone =>
    cases hinsert
    exact ⟨hnone, rfl⟩

theorem get?_insert_self (hinsert : table.insert symbol = .ok table') :
    table'.get? symbol.name = some symbol := by
  obtain ⟨hnone, hsymbols⟩ := symbols_insert hinsert
  have hsame : Text.sameWord symbol.name symbol.name = true := beq_self_eq_true _
  unfold get? at hnone ⊢
  rw [hsymbols, List.find?_append, hnone, Option.none_or, List.find?_cons, hsame]

/-- A name that has a symbol keeps it. -/
theorem get?_insert_of_get? (hinsert : table.insert symbol = .ok table')
    (hget : table.get? name = some other) : table'.get? name = some other := by
  obtain ⟨-, hsymbols⟩ := symbols_insert hinsert
  unfold get? at hget ⊢
  rw [hsymbols, List.find?_append, hget, Option.some_or]

theorem get?_rebase (table : SymbolTable) (kind : SymbolKind) (source target : Int) :
    (table.rebase kind source target).get? name =
      (table.get? name).map fun symbol =>
        if symbol.kind = kind ∧ symbol.value = source then { symbol with value := target }
        else symbol := by
  unfold get? rebase
  rw [List.find?_map]
  congr 2
  funext symbol
  dsimp only [Function.comp]
  split
  · rfl
  · rfl

theorem mem_of_mem_rebase {kind : SymbolKind} {source target : Int}
    (hmem : symbol ∈ (table.rebase kind source target).symbols) (hkind : symbol.kind ≠ kind) :
    symbol ∈ table.symbols := by
  unfold rebase at hmem
  obtain ⟨old, hold, rfl⟩ := List.mem_map.mp hmem
  split at hkind
  next hmoved => exact absurd hmoved.1 hkind
  next hstays =>
    rw [if_neg hstays]
    exact hold

/-- Symbols of a kind that all have the same value move together. -/
theorem value_of_mem_rebase {kind : SymbolKind} {source target : Int}
    (hall : ∀ old ∈ table.symbols, old.kind = kind → old.value = source)
    (hmem : symbol ∈ (table.rebase kind source target).symbols) (hkind : symbol.kind = kind) :
    symbol.value = target := by
  unfold rebase at hmem
  obtain ⟨old, hold, rfl⟩ := List.mem_map.mp hmem
  split at hkind
  next hmoved => rw [if_pos hmoved]
  next hstays => exact absurd ⟨hkind, hall old hold hkind⟩ hstays

/-! ## Names are told apart -/

/-- No two names are equal up to letter case. -/
def Distinct (table : SymbolTable) : Prop :=
  table.symbols.Pairwise fun first second => Text.sameWord first.name second.name = false

theorem distinct_empty : Distinct {} := List.Pairwise.nil

theorem Distinct.insert (hdistinct : table.Distinct) (hinsert : table.insert symbol = .ok table') :
    table'.Distinct := by
  obtain ⟨hnone, hsymbols⟩ := symbols_insert hinsert
  have hnew : ∀ other ∈ table.symbols, Text.sameWord other.name symbol.name = false := by
    simpa [get?, List.find?_eq_none] using hnone
  unfold Distinct at *
  rw [hsymbols, List.pairwise_append]
  simpa [hdistinct] using hnew

theorem Distinct.rebase (hdistinct : table.Distinct) (kind : SymbolKind) (source target : Int) :
    (table.rebase kind source target).Distinct := by
  unfold Distinct SymbolTable.rebase at *
  rw [List.pairwise_map]
  apply hdistinct.imp
  intro first second hdiffer
  split <;> split <;> exact hdiffer

end SymbolTable
end WordMachine
