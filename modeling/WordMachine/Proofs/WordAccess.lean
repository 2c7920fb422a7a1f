import WordMachine.Machine.Memory

/-!
# Accessing words

The address of a word is a 32-bit integer, and so is its end.  A word is read and
stored where both of its bytes lie in memory, and a stored word changes no other
byte.  Any other address is refused and memory stays as it was; but at the two
greatest integers the end of the word is out of range itself, and the access
breaks down before the address can be refused.
-/

namespace WordMachine

namespace Memory

variable {address : Int}

/-! ## Which addresses are refused -/

theorem place_inside (hinside : 0 ≤ address ∧ address ≤ 65534) :
    place address = .ok address.toNat := by
  have hrange : ¬maxAddress < address + 2 := by
    unfold maxAddress
    omega
  have hfits : ¬(address < 0 ∨ (size : Int) < address + 2) := by
    unfold size
    omega
  rw [place, if_neg hrange, if_neg hfits]

theorem place_outside (houtside : ¬(0 ≤ address ∧ address ≤ 65534))
    (hrange : address ≤ 2147483645) :
    place address = .error (.fault (.addressOutOfBounds address)) := by
  have hend : ¬maxAddress < address + 2 := by
    unfold maxAddress
    omega
  have hrefused : address < 0 ∨ (size : Int) < address + 2 := by
    unfold size
    omega
  rw [place, if_neg hend, if_pos hrefused]

theorem place_beyond (hrange : 2147483646 ≤ address) :
    place address = .error (.breakdown "the end of a word exceeds the largest integer") := by
  have hend : maxAddress < address + 2 := by
    unfold maxAddress
    omega
  rw [place, if_pos hend]

/-! ## Reading and storing at a place -/

variable {memory : Memory} {start : Nat} {failure : Failure}

theorem readWord_of_place (hplace : place address = .ok start) :
    memory.readWord address = .ok (memory.wordAt start) := by
  rw [readWord, hplace]
  rfl

theorem readWord_of_error (hplace : place address = .error failure) :
    memory.readWord address = .error failure := by
  rw [readWord, hplace]
  rfl

theorem run_writeWord_of_place (hplace : place address = .ok start) (value : Word) :
    (writeWord address value).run memory = .ok () (memory.setWord start value) := by
  simp only [EStateM.run, writeWord, hplace]
  rfl

theorem run_writeWord_of_error (hplace : place address = .error failure) (value : Word) :
    (writeWord address value).run memory = .error failure memory := by
  simp only [EStateM.run, writeWord, hplace]
  rfl

/-- Two bytes read as a number are the word that they make up. -/
theorem read?_eq_wordAt (memory : Memory) (hfits : start + 2 ≤ size) :
    memory.read? start 2 = some (memory.wordAt start).toNat := by
  have hbytes : memory.slice start 2 = [memory.byte start, memory.byte (start + 1)] := by
    have hcount : min 2 (size - start) = 2 := by omega
    rw [slice, hcount]
    rfl
  have hlow := (memory.byte start).toNat_lt
  have hhigh := (memory.byte (start + 1)).toNat_lt
  rw [read?, if_pos hfits, hbytes, wordAt]
  simp only [littleEndian, BitVec.toNat_add, BitVec.toNat_ofNat]
  congr 1
  omega

end Memory

open Memory

/-- A word is accessed at every address where both of its bytes lie in memory, and what is stored
there is read back, as a word and as its two bytes, with every other byte unchanged.  All other
addresses are refused without a change, up to the last one whose word ends at a 32-bit integer. -/
theorem words_are_accessed_inside (memory : Memory) (address : Int) (value : Word) :
    (0 ≤ address ∧ address ≤ 65534 →
        (∃ word, memory.readWord address = .ok word) ∧
          ∃ after,
            (writeWord address value).run memory = .ok () after ∧
              after.readWord address = .ok value ∧
              after.read? address.toNat 2 = some value.toNat ∧
              ∀ other, other ≠ address.toNat → other ≠ address.toNat + 1 →
                after.byte other = memory.byte other) ∧
      (¬(0 ≤ address ∧ address ≤ 65534) → address ≤ 2147483645 →
        memory.readWord address = .error (.fault (.addressOutOfBounds address)) ∧
          (writeWord address value).run memory =
            .error (.fault (.addressOutOfBounds address)) memory) ∧
      (2147483646 ≤ address →
        ∃ message,
          memory.readWord address = .error (.breakdown message) ∧
            (writeWord address value).run memory = .error (.breakdown message) memory) := by
  refine ⟨?_, ?_, ?_⟩
  · intro hinside
    have hplace := place_inside hinside
    have hfits : address.toNat + 2 ≤ size := by
      unfold size
      omega
    refine ⟨⟨_, readWord_of_place hplace⟩, _, run_writeWord_of_place hplace value, ?_, ?_, ?_⟩
    · rw [readWord_of_place hplace, wordAt_setWord memory value hfits]
    · rw [read?_eq_wordAt _ hfits, wordAt_setWord memory value hfits]
    · intro other hlow hhigh
      rw [byte_setWord memory value hfits, if_neg hhigh, if_neg hlow]
  · intro houtside hrange
    have hplace := place_outside houtside hrange
    exact ⟨readWord_of_error hplace, run_writeWord_of_error hplace value⟩
  · intro hrange
    have hplace := place_beyond hrange
    exact ⟨_, readWord_of_error hplace, run_writeWord_of_error hplace value⟩

/-- The last word of memory takes the greatest pattern, and the byte behind it takes no word. -/
theorem words_are_accessed_inside_last :
    (∃ after,
        (writeWord 65534 0xffff).run Memory.zero = .ok () after ∧
          after.readWord 65534 = .ok 0xffff ∧ after.read? 65534 2 = some 65535) ∧
      Memory.zero.readWord 65535 = .error (.fault (.addressOutOfBounds 65535)) ∧
      ∃ message, Memory.zero.readWord 2147483646 = .error (.breakdown message) := by
  obtain ⟨hinside, -, -⟩ := words_are_accessed_inside Memory.zero 65534 0xffff
  obtain ⟨-, houtside, -⟩ := words_are_accessed_inside Memory.zero 65535 0
  obtain ⟨-, -, hbeyond⟩ := words_are_accessed_inside Memory.zero 2147483646 0
  obtain ⟨-, after, hwrite, hword, hread, -⟩ := hinside (by decide)
  obtain ⟨message, hbreaks, -⟩ := hbeyond (by decide)
  exact ⟨⟨after, hwrite, hword, hread⟩, (houtside (by decide) (by decide)).1, message, hbreaks⟩

/-- At the greatest integer the access breaks down where it should be refused. -/
theorem not_every_outside_word_is_refused :
    ¬∀ (memory : Memory) (address : Int), -2147483648 ≤ address → address ≤ 2147483647 →
        ¬(0 ≤ address ∧ address ≤ 65534) →
          memory.readWord address = .error (.fault (.addressOutOfBounds address)) := by
  intro hall
  have hbreaks : Memory.zero.readWord 2147483647 =
      .error (.breakdown "the end of a word exceeds the largest integer") :=
    readWord_of_error (place_beyond (by decide))
  have hrefused := hall Memory.zero 2147483647 (by decide) (by decide) (by decide)
  rw [hbreaks] at hrefused
  cases hrefused

end WordMachine
