/-!
# Pages

Data memory is kept in pages of 256 bytes.  Two memories that came from one
another share the pages they agree on, so that copying, changing and comparing
memory costs what has changed and not what there is.
-/

namespace WordMachine

structure Page where
  bytes : ByteArray
  size_bytes : bytes.size = 256

namespace Page

/-- A page is its bytes. -/
theorem eq_iff (page other : Page) : page = other ↔ page.bytes = other.bytes := by
  cases page
  cases other
  simp

instance : DecidableEq Page := fun page other =>
  match ByteArray.decEq page.bytes other.bytes with
  | isTrue h => isTrue ((eq_iff page other).mpr h)
  | isFalse h => isFalse fun heq => h ((eq_iff page other).mp heq)

def zero : Page where
  bytes := ⟨Array.replicate 256 0⟩
  size_bytes := by simp [ByteArray.size]

instance : Inhabited Page := ⟨zero⟩

theorem lt_size_bytes (page : Page) {offset : Nat} (h : offset < 256) :
    offset < page.bytes.size :=
  page.size_bytes.symm ▸ h

@[inline] def byte (page : Page) (offset : Nat) (h : offset < 256) : UInt8 :=
  page.bytes.get offset (page.lt_size_bytes h)

theorem size_set (bytes : ByteArray) (offset : Nat) (value : UInt8)
    (h : offset < bytes.size) : (bytes.set offset value h).size = bytes.size := by
  cases bytes
  simp [ByteArray.set, ByteArray.size]

@[inline] def set (page : Page) (offset : Nat) (value : UInt8) (h : offset < 256) : Page where
  bytes := page.bytes.set offset value (page.lt_size_bytes h)
  size_bytes := (size_set ..).trans page.size_bytes

@[simp] theorem byte_zero (offset : Nat) (h : offset < 256) : zero.byte offset h = 0 :=
  Array.getElem_replicate _

theorem byte_set_self (page : Page) (offset : Nat) (value : UInt8) (h : offset < 256) :
    (page.set offset value h).byte offset h = value :=
  Array.getElem_set_self (page.lt_size_bytes h)

theorem byte_set_ne (page : Page) (offset other : Nat) (value : UInt8) (h : offset < 256)
    (h' : other < 256) (hne : other ≠ offset) :
    (page.set offset value h).byte other h' = page.byte other h' :=
  Array.getElem_set_ne (page.lt_size_bytes h) (page.lt_size_bytes h') (Ne.symm hne)

end Page
end WordMachine
