import Mathlib.Tactic.Ring
import WordMachine.Proofs.Calculations

/-!
# Arithmetic on integers

What the arithmetic opcodes give, said on the integers that two words stand for.
A sum and a difference are taken modulo 65536, and the flags tell whether they
left the unsigned and the signed range; a product is clamped to the signed range;
a quotient truncates toward zero, and a remainder has the sign of the dividend;
shifts multiply and divide the unsigned word by a power of two.
-/

namespace WordMachine

namespace Arithmetic

/-- The integer is no signed word. -/
def leavesRange (n : Int) : Bool := n < -32768 || 32767 < n

variable (a b : Word)

theorem ofInt_add_toInt : BitVec.ofInt 16 (a.toInt + b.toInt) = a + b := by
  rw [BitVec.ofInt_add, BitVec.ofInt_toInt, BitVec.ofInt_toInt]

theorem ofInt_sub_toInt : BitVec.ofInt 16 (a.toInt - b.toInt) = a - b := by
  rw [Int.sub_eq_add_neg, BitVec.ofInt_add, BitVec.ofInt_neg, BitVec.ofInt_toInt,
    BitVec.ofInt_toInt, BitVec.sub_eq_add_neg]

theorem saddOverflow_eq : BitVec.saddOverflow a b = leavesRange (a.toInt + b.toInt) := by
  rw [Bool.eq_iff_iff]
  simp only [BitVec.saddOverflow, leavesRange, Bool.or_eq_true, decide_eq_true_eq]
  omega

theorem ssubOverflow_eq : BitVec.ssubOverflow a b = leavesRange (a.toInt - b.toInt) := by
  rw [Bool.eq_iff_iff]
  simp only [BitVec.ssubOverflow, leavesRange, Bool.or_eq_true, decide_eq_true_eq]
  omega

theorem add_eq :
    add a b =
      { value := .ofInt 16 (a.toInt + b.toInt)
        carry := 65536 ≤ a.toNat + b.toNat
        overflow := leavesRange (a.toInt + b.toInt) } := by
  rw [add, ofInt_add_toInt, saddOverflow_eq]
  rfl

theorem sub_eq :
    sub a b =
      { value := .ofInt 16 (a.toInt - b.toInt)
        carry := a.toNat < b.toNat
        overflow := leavesRange (a.toInt - b.toInt) } := by
  rw [sub, ofInt_sub_toInt, ssubOverflow_eq]
  rfl

theorem mul_eq :
    mul a b =
      { value := .ofInt 16 (max (-32768) (min (a.toInt * b.toInt) 32767))
        carry := leavesRange (a.toInt * b.toInt)
        overflow := leavesRange (a.toInt * b.toInt) } := by
  have hclamped : ∀ product : Int,
      (max minSigned (min product maxSigned) != product) = leavesRange product := by
    intro product
    rw [Bool.eq_iff_iff]
    simp only [leavesRange, minSigned, maxSigned, bne_iff_ne, Bool.or_eq_true, decide_eq_true_eq]
    omega
  simp only [mul, hclamped]
  rfl

theorem shl_eq : shl a b = { value := .ofNat 16 (a.toNat * 2 ^ (b.toNat % 16)) } := by
  have hvalue : a <<< shiftAmount b = .ofNat 16 (a.toNat * 2 ^ (b.toNat % 16)) := by
    apply BitVec.eq_of_toNat_eq
    rw [BitVec.toNat_shiftLeft, Nat.shiftLeft_eq, BitVec.toNat_ofNat, shiftAmount]
  rw [shl, hvalue]

theorem shr_eq : shr a b = { value := .ofNat 16 (a.toNat / 2 ^ (b.toNat % 16)) } := by
  have hvalue : a >>> shiftAmount b = .ofNat 16 (a.toNat / 2 ^ (b.toNat % 16)) := by
    have hlt : a.toNat / 2 ^ (b.toNat % 16) < 2 ^ 16 :=
      Nat.lt_of_le_of_lt (Nat.div_le_self _ _) a.isLt
    apply BitVec.eq_of_toNat_eq
    rw [BitVec.toNat_ushiftRight, Nat.shiftRight_eq_div_pow, BitVec.toNat_ofNat,
      Nat.mod_eq_of_lt hlt, shiftAmount]
  rw [shr, hvalue]

/-! ## Division -/

theorem divOverflows_eq :
    divOverflows a b = decide (a.toInt = -32768 ∧ b.toInt = -1) := by
  have hleast : a = BitVec.ofInt 16 minSigned ↔ a.toInt = -32768 := by
    rw [← BitVec.toInt_inj]
    rfl
  have hminus : b = -1 ↔ b.toInt = -1 := by
    rw [← BitVec.toInt_inj]
    rfl
  rw [Bool.eq_iff_iff]
  simp only [divOverflows, Bool.and_eq_true, beq_iff_eq, hleast, hminus, decide_eq_true_eq]

theorem toInt_eq_zero_iff : a.toInt = 0 ↔ a = 0 := by
  rw [← BitVec.toInt_inj]
  rfl

theorem sdiv_eq : a.sdiv b = .ofInt 16 (a.toInt.tdiv b.toInt) := by
  apply BitVec.eq_of_toInt_eq
  rw [BitVec.toInt_sdiv, BitVec.toInt_ofInt]

theorem toInt_srem_eq : (a.srem b).toInt = a.toInt - b.toInt * a.toInt.tdiv b.toInt := by
  rw [BitVec.toInt_srem, Int.tmod_def]

theorem natAbs_srem_lt (hb : b.toInt ≠ 0) : (a.srem b).toInt.natAbs < b.toInt.natAbs := by
  rw [BitVec.toInt_srem, Int.natAbs_tmod]
  exact Nat.mod_lt _ (Int.natAbs_pos.mpr hb)

theorem sign_srem : (a.srem b).toInt = 0 ∨ (a.srem b).toInt.sign = a.toInt.sign := by
  have hsign := Int.sign_tmod a.toInt b.toInt
  rw [BitVec.toInt_srem]
  by_cases hdivides : b.toInt ∣ a.toInt
  · rw [if_pos hdivides] at hsign
    exact .inl (Int.sign_eq_zero_iff_zero.mp hsign)
  · rw [if_neg hdivides] at hsign
    exact .inr hsign

/-- The quotient that is kept gives the dividend back modulo 65536, also where it overflows. -/
theorem division_law :
    (a.toInt - ((a.sdiv b).toInt * b.toInt + (a.srem b).toInt)) % 65536 = 0 := by
  obtain ⟨turns, hturns⟩ : ∃ turns, (a.sdiv b).toInt = a.toInt.tdiv b.toInt + 65536 * turns := by
    rw [BitVec.toInt_sdiv, Int.bmod_def]
    split
    · exact ⟨-(a.toInt.tdiv b.toInt / 65536), by omega⟩
    · exact ⟨-(a.toInt.tdiv b.toInt / 65536) - 1, by omega⟩
  apply Int.emod_eq_zero_of_dvd
  rw [hturns, toInt_srem_eq]
  exact ⟨-(turns * b.toInt), by ring⟩

end Arithmetic

open Arithmetic

/-- What the arithmetic opcodes give for any two words, on the integers `A` and `B` that the words
stand for as signed and on their unsigned values. -/
theorem arithmetic_is_integer_arithmetic (a b : Word) :
    let A := a.toInt
    let B := b.toInt
    Opcode.add.Gives a b
        { value := .ofInt 16 (A + B)
          carry := 65536 ≤ a.toNat + b.toNat
          overflow := leavesRange (A + B) } ∧
      Opcode.sub.Gives a b
        { value := .ofInt 16 (A - B)
          carry := a.toNat < b.toNat
          overflow := leavesRange (A - B) } ∧
      Opcode.cmp.Gives a b
        { value := .ofInt 16 (A - B)
          carry := a.toNat < b.toNat
          overflow := leavesRange (A - B) } ∧
      Opcode.inc.Gives a b
        { value := .ofInt 16 (A + 1)
          carry := 65536 ≤ a.toNat + 1
          overflow := leavesRange (A + 1) } ∧
      Opcode.dec.Gives a b
        { value := .ofInt 16 (A - 1)
          carry := a.toNat < 1
          overflow := leavesRange (A - 1) } ∧
      Opcode.neg.Gives a b
        { value := .ofInt 16 (0 - A)
          carry := 0 < a.toNat
          overflow := leavesRange (0 - A) } ∧
      Opcode.mul.Gives a b
        { value := .ofInt 16 (max (-32768) (min (A * B) 32767))
          carry := leavesRange (A * B)
          overflow := leavesRange (A * B) } ∧
      Opcode.shl.Gives a b { value := .ofNat 16 (a.toNat * 2 ^ (b.toNat % 16)) } ∧
      Opcode.shr.Gives a b { value := .ofNat 16 (a.toNat / 2 ^ (b.toNat % 16)) } ∧
      (B = 0 →
        Opcode.div.Refuses a b .divisionByZero ∧ Opcode.mod.Refuses a b .divisionByZero) ∧
      (B ≠ 0 → ∃ q r : Word,
        Opcode.div.Gives a b { value := q, overflow := A = -32768 ∧ B = -1 } ∧
          Opcode.mod.Gives a b { value := r, overflow := A = -32768 ∧ B = -1 } ∧
            q = .ofInt 16 (A.tdiv B) ∧ r.toInt = A - B * A.tdiv B ∧
              (A - (q.toInt * B + r.toInt)) % 65536 = 0 ∧ r.toInt.natAbs < B.natAbs ∧
                (r.toInt = 0 ∨ r.toInt.sign = A.sign)) := by
  intro A B
  refine ⟨?_, ?_, ?_, ?_, ?_, ?_, ?_, ?_, ?_, ?_, ?_⟩
  · exact Opcode.gives_of_operation rfl (congrArg Except.ok (add_eq a b))
  · exact Opcode.gives_of_operation rfl (congrArg Except.ok (sub_eq a b))
  · exact Opcode.gives_of_operation rfl (congrArg Except.ok (sub_eq a b))
  · exact Opcode.gives_of_operation rfl (congrArg Except.ok (add_eq a 1))
  · exact Opcode.gives_of_operation rfl (congrArg Except.ok (sub_eq a 1))
  · exact Opcode.gives_of_operation rfl (congrArg Except.ok (sub_eq 0 a))
  · exact Opcode.gives_of_operation rfl (congrArg Except.ok (mul_eq a b))
  · exact Opcode.gives_of_operation rfl (congrArg Except.ok (shl_eq a b))
  · exact Opcode.gives_of_operation rfl (congrArg Except.ok (shr_eq a b))
  · intro hzero
    have hb : b = 0 := (toInt_eq_zero_iff b).mp hzero
    exact ⟨Opcode.refuses_of_operation rfl (if_pos hb), Opcode.refuses_of_operation rfl (if_pos hb)⟩
  · intro hnonzero
    have hb : b ≠ 0 := mt (toInt_eq_zero_iff b).mpr hnonzero
    have hdiv : div a b = .ok { value := a.sdiv b, overflow := A = -32768 ∧ B = -1 } := by
      rw [div, if_neg hb, divOverflows_eq]
    have hmod : mod a b = .ok { value := a.srem b, overflow := A = -32768 ∧ B = -1 } := by
      rw [mod, if_neg hb, divOverflows_eq]
    exact ⟨a.sdiv b, a.srem b, Opcode.gives_of_operation rfl hdiv,
      Opcode.gives_of_operation rfl hmod, sdiv_eq a b, toInt_srem_eq a b, division_law a b,
      natAbs_srem_lt a b hnonzero, sign_srem a b⟩

/-- The least word divided by minus one. -/
def Program.leastDivided : Program where
  instructions :=
    #[{ opcode := .div, operands := [.register .basePointer, .immediate (-1)],
        line := 1, column := 1, source := "DIV BP, #-1".toList, address := 0 }]
  symbols := {}
  data := #[]
  textStart := 0
  dataStart := 0

theorem arithmetic_is_integer_arithmetic_least :
    let machine : Machine := { cpu := { basePointer := 32768 } }
    ∃ after,
      (Machine.step .standard .leastDivided).run machine = .ok () after ∧
        after.cpu.basePointer.toInt = -32768 ∧ after.cpu.flags.overflow = true := by
  intro machine
  have hcalculates : machine.Calculates .leastDivided Program.leastDivided.instructions[0]
      .basePointer 32768 65535 :=
    ⟨rfl, rfl, rfl, fun _ => rfl⟩
  obtain ⟨-, -, -, -, -, -, -, -, -, -, hdivision⟩ := arithmetic_is_integer_arithmetic 32768 65535
  obtain ⟨q, r, hdiv, -, hquotient, -⟩ := hdivision (by decide)
  obtain ⟨after, hok, hvalue, hflags⟩ :=
    hdiv .standard .leastDivided _ machine .basePointer rfl hcalculates
  have hoverflow : after.cpu.flags.overflow = true := by
    rw [hflags]
    rfl
  refine ⟨after, hok, ?_, hoverflow⟩
  have hpointer : after.cpu.basePointer = q := hvalue
  rw [hpointer, hquotient]
  decide

end WordMachine
