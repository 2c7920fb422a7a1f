import WordMachine.Machine.Memory

/-!
# Changed regions

A region is a run of consecutive addresses.  Two images of one size are compared a
chunk at a time, from the lowest address up: chunks that agree are passed over, and
a byte that differs makes the latest region longer if it stands right behind it, or
begins a region of its own.
-/

namespace WordMachine

structure Region where
  start : Nat
  length : Nat
  deriving DecidableEq

namespace Region

open Text

/-- One past the last address. -/
def finish (region : Region) : Nat := region.start + region.length

/-- Whether the region meets the `length` addresses from `start` on. -/
def overlaps (region : Region) (start length : Nat) : Bool :=
  start < region.finish && region.start < start + length

def display (region : Region) : Text :=
  hexWord region.start ++ ['.', '.'] ++ hexWord region.finish

/-- Note an address that differs.  The regions found below it stand latest first. -/
def note (address : Nat) : List Region → List Region
  | [] => [⟨address % 65536, 1⟩]
  | region :: rest =>
      if region.finish = address % 4294967296 then ⟨region.start, region.length + 1⟩ :: rest
      else ⟨address % 65536, 1⟩ :: region :: rest

/-- Look at each address in turn. -/
@[specialize] def scanBytes (differs : Nat → Bool) :
    (address count : Nat) → (found : List Region) → List Region
  | _, 0, found => found
  | address, count + 1, found =>
      scanBytes differs (address + 1) count
        (if differs address then note address found else found)

/-- How many bytes are compared at once. -/
def chunk : Nat := 64

/-- Look into each chunk that does not agree.  The last chunk ends where the images do. -/
@[specialize] def scanChunks (agrees : Nat → Nat → Bool) (differs : Nat → Bool) (size : Nat) :
    (index count : Nat) → (found : List Region) → List Region
  | _, 0, found => found
  | index, count + 1, found =>
      let start := chunk * index
      let length := min chunk (size - start)
      scanChunks agrees differs size (index + 1) count
        (if agrees start length then found else scanBytes differs start length found)

/-- The regions of `size` addresses that differ, in increasing order. -/
@[inline, irreducible] def scan (agrees : Nat → Nat → Bool) (differs : Nat → Bool) (size : Nat) :
    List Region :=
  (scanChunks agrees differs size 0 ((size + chunk - 1) / chunk) []).reverse

/-- The byte of an image at an address; there is nothing but zeros past the end. -/
@[inline] def byteAt (image : ByteArray) (address : Nat) : UInt8 :=
  if h : address < image.size then image[address] else 0

/-- Where two images of the same size differ. -/
def diff (before after : ByteArray) : List Region :=
  scan
    (fun start length =>
      before.extract start (start + length) == after.extract start (start + length))
    (fun address => byteAt before address != byteAt after address) before.size

end Region

namespace Memory

/-- Whether the byte at an address differs. -/
@[inline] def differs (before after : Memory) (address : Nat) : Bool :=
  before.byte address != after.byte address

/-- Whether the chunks of two memories at an address agree, as they do on a page they share. -/
def chunksAgree (before after : Memory) (start length : Nat) : Bool :=
  before.pages[start / 256]? = after.pages[start / 256]? ||
    before.slice start length == after.slice start length

/-- Where two memories differ. -/
def diff (before after : Memory) : List Region :=
  Region.scan (before.chunksAgree after) (before.differs after) size

/-- Copy the bytes of another memory in at some regions. -/
def copyRegions (memory source : Memory) (regions : List Region) : Memory :=
  regions.foldl
    (fun memory region => memory.load region.start (source.slice region.start region.length))
    memory

end Memory
end WordMachine
