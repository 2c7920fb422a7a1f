import WordMachine.Machine.Fault
import WordMachine.Machine.Page
import WordMachine.Program

/-!
# Data memory

Memory is 65536 bytes, in 256 pages.  `byte` is its view: what each operation
does to memory is what it does to the byte at every address.  Words are stored
low byte first and must lie inside memory as a whole.
-/

namespace WordMachine

structure Memory where
  pages : Vector Page 256

namespace Memory

def size : Nat := 65536

theorem page_lt {address : Nat} (h : address < size) : address / 256 < 256 := by
  unfold size at h
  omega

theorem offset_lt (address : Nat) : address % 256 < 256 :=
  Nat.mod_lt _ (by decide)

@[inline] def page (memory : Memory) (number : Nat) (h : number < 256) : Page :=
  memory.pages[number]

@[inline] def byte (memory : Memory) (address : Nat) : UInt8 :=
  if h : address < size then
    (memory.page (address / 256) (page_lt h)).byte (address % 256) (offset_lt address)
  else 0

theorem byte_of_size_le (memory : Memory) {address : Nat} (h : size ≤ address) :
    memory.byte address = 0 := by
  rw [byte, dif_neg (Nat.not_lt.mpr h)]

def zero : Memory where
  pages := Vector.replicate 256 Page.zero

instance : Inhabited Memory := ⟨zero⟩

@[simp] theorem byte_zero (address : Nat) : zero.byte address = 0 := by
  simp [byte, page, zero]

/-- Change one byte.  An address past the end is ignored. -/
def set (memory : Memory) (address : Nat) (value : UInt8) : Memory :=
  if h : address < size then
    { pages :=
        memory.pages.set (address / 256)
          ((memory.page (address / 256) (page_lt h)).set (address % 256) value
            (offset_lt address))
          (page_lt h) }
  else memory

theorem byte_set (memory : Memory) (address other : Nat) (value : UInt8)
    (h : address < size) :
    (memory.set address value).byte other =
      if other = address then value else memory.byte other := by
  rw [set, dif_pos h]
  unfold byte
  by_cases heq : other = address
  · subst heq
    simp [h, page, Page.byte_set_self]
  · rw [if_neg heq]
    split
    · by_cases hpage : address / 256 = other / 256
      · have hne : other % 256 ≠ address % 256 := fun hoffset => heq (by omega)
        simp [page, hpage, Page.byte_set_ne, hne]
      · simp [page, hpage]
    · rfl

theorem set_of_size_le (memory : Memory) (address : Nat) (value : UInt8)
    (h : size ≤ address) : memory.set address value = memory := by
  rw [set, dif_neg (Nat.not_lt.mpr h)]

/-- Copy bytes in from an address on.  What would lie past the end is dropped. -/
def load (memory : Memory) (start : Nat) : List UInt8 → Memory
  | [] => memory
  | value :: rest => (memory.set start value).load (start + 1) rest

theorem byte_load (memory : Memory) (start : Nat) (bytes : List UInt8) {address : Nat}
    (h : address < size) :
    (memory.load start bytes).byte address =
      if start ≤ address then bytes[address - start]?.getD (memory.byte address)
      else memory.byte address := by
  induction bytes generalizing memory start with
  | nil => simp [load]
  | cons value rest ih =>
      rw [load, ih]
      by_cases hstart : start = address
      · subst hstart
        rw [if_neg (Nat.not_succ_le_self start), byte_set _ _ _ _ h]
        simp
      · have hset : (memory.set start value).byte address = memory.byte address := by
          by_cases hsize : start < size
          · rw [byte_set _ _ _ _ hsize, if_neg (Ne.symm hstart)]
          · rw [set_of_size_le _ _ _ (Nat.le_of_not_lt hsize)]
        rw [hset]
        by_cases hle : start ≤ address
        · have hsucc : address - start = address - (start + 1) + 1 := by omega
          rw [if_pos hle, if_pos (by omega), hsucc, List.getElem?_cons_succ]
        · rw [if_neg hle, if_neg (by omega)]

/-- Memory that holds a program's data and zeros elsewhere. -/
def ofProgram (program : Program) : Memory :=
  zero.load program.dataStart.toNat program.data.toList

/-- The bytes from an address on, at most `count` of them. -/
def slice (memory : Memory) (start count : Nat) : List UInt8 :=
  (List.range' start (min count (size - start))).map memory.byte

theorem getElem?_slice (memory : Memory) (start count index : Nat) :
    (memory.slice start count)[index]? =
      if index < count ∧ start + index < size then some (memory.byte (start + index))
      else none := by
  unfold slice
  by_cases hindex : index < count ∧ start + index < size
  · rw [if_pos hindex, List.getElem?_map, List.getElem?_range' (by omega)]
    simp
  · rw [if_neg hindex, List.getElem?_eq_none (by simp; omega)]

theorem slice_congr {memory other : Memory} {start count : Nat}
    (h : ∀ address, start ≤ address → address < start + count →
      memory.byte address = other.byte address) :
    memory.slice start count = other.slice start count := by
  apply List.map_congr_left
  intro address hmem
  obtain ⟨hlow, hhigh⟩ := List.mem_range'_1.mp hmem
  exact h address hlow (by omega)

def toList (memory : Memory) : List UInt8 := memory.slice 0 size

/-- How many bytes are not zero. -/
def used (memory : Memory) : Nat := memory.toList.countP (· != 0)

/-- The number that a list of bytes holds, low byte first. -/
def littleEndian : List UInt8 → Nat
  | [] => 0
  | value :: rest => value.toNat + 256 * littleEndian rest

/-- The value of `width` bytes as 32 bits, unless they run past the end. -/
def read? (memory : Memory) (address : Nat) (width : Nat) : Option Nat :=
  if address + width ≤ size then
    some (littleEndian (memory.slice address width) % 4294967296)
  else none

theorem read?_congr {memory other : Memory} {start width : Nat}
    (h : ∀ address, start ≤ address → address < start + width →
      memory.byte address = other.byte address) :
    memory.read? start width = other.read? start width := by
  rw [read?, read?, slice_congr h]

/-- The greatest 32-bit integer; the end of a word is computed as one. -/
def maxAddress : Int := 2147483647

/-- The place of a word, unless it lies outside memory. -/
def place (address : Int) : Except Failure Nat :=
  if maxAddress < address + 2 then
    .error (.breakdown "the end of a word exceeds the largest integer")
  else if address < 0 ∨ size < address + 2 then
    .error (.fault (.addressOutOfBounds address))
  else .ok address.toNat

theorem place_word (address : Word) :
    place address.toNat =
      if address.toNat + 2 ≤ size then .ok address.toNat
      else .error (.fault (.addressOutOfBounds address.toNat)) := by
  have hlt : address.toNat < 65536 := address.isLt
  have hmax : ¬maxAddress < (address.toNat : Int) + 2 := by
    unfold maxAddress
    omega
  have hpositive : ¬(address.toNat : Int) < 0 := by omega
  unfold place
  rw [if_neg hmax]
  by_cases hfits : address.toNat + 2 ≤ size
  · have hinside : ¬(size : Int) < (address.toNat : Int) + 2 := by omega
    rw [if_pos hfits, if_neg (not_or.mpr ⟨hpositive, hinside⟩), Int.toNat_natCast]
  · have houtside : (size : Int) < (address.toNat : Int) + 2 := by omega
    rw [if_neg hfits, if_pos (.inr houtside)]

def wordAt (memory : Memory) (address : Nat) : Word :=
  BitVec.ofNat 16 (memory.byte address).toNat +
    BitVec.ofNat 16 (256 * (memory.byte (address + 1)).toNat)

def setWord (memory : Memory) (address : Nat) (value : Word) : Memory :=
  (memory.set address ⟨value.extractLsb' 0 8⟩).set (address + 1) ⟨value.extractLsb' 8 8⟩

theorem byte_setWord (memory : Memory) {address : Nat} (value : Word)
    (h : address + 2 ≤ size) (other : Nat) :
    (memory.setWord address value).byte other =
      if other = address + 1 then ⟨value.extractLsb' 8 8⟩
      else if other = address then ⟨value.extractLsb' 0 8⟩
      else memory.byte other := by
  rw [setWord, byte_set _ _ _ _ (by omega), byte_set _ _ _ _ (by omega)]

/-- A word that is stored is read back. -/
theorem wordAt_setWord (memory : Memory) {address : Nat} (value : Word)
    (h : address + 2 ≤ size) : (memory.setWord address value).wordAt address = value := by
  have hlow : (memory.setWord address value).byte address = ⟨value.extractLsb' 0 8⟩ := by
    simp [byte_setWord memory value h]
  have hhigh : (memory.setWord address value).byte (address + 1) =
      ⟨value.extractLsb' 8 8⟩ := by
    simp [byte_setWord memory value h]
  rw [wordAt, hlow, hhigh]
  apply BitVec.eq_of_toNat_eq
  have hvalue : value.toNat < 65536 := value.isLt
  simp [UInt8.toNat, BitVec.extractLsb'_toNat, Nat.shiftRight_eq_div_pow]
  omega

def readWord (memory : Memory) (address : Int) : Except Failure Word :=
  memory.wordAt <$> place address

/-- Store a word.  An address that is refused leaves memory alone. -/
def writeWord (address : Int) (value : Word) : EStateM Failure Memory Unit := do
  let start ← liftExcept (place address)
  modify (·.setWord start value)

def display (memory : Memory) : String :=
  "Memory(" ++ toString memory.used ++ " non-zero bytes)"

end Memory
end WordMachine
