import WordMachine.Proofs.IntegerArithmetic
import WordMachine.Proofs.OperandSoundness

/-!
# Jumps after a comparison

The flags of a difference are set in one place and read by the conditional jumps
in another.  Together they decide the order of the two words: the sign of the
wrapped difference is wrong just where it overflowed, so that sign and overflow
give the signed order, and the carry gives the unsigned one.
-/

namespace WordMachine

/-- What a conditional jump asks of two words that have been compared: their signed order, or the
unsigned order where it goes by the carry. -/
def Opcode.order? (a b : Word) : Opcode → Option Bool
  | .je => some (a = b)
  | .jnz => some (a ≠ b)
  | .jg => some (b.toInt < a.toInt)
  | .jge => some (b.toInt ≤ a.toInt)
  | .jl => some (a.toInt < b.toInt)
  | .jle => some (a.toInt ≤ b.toInt)
  | .jc => some (a.toNat < b.toNat)
  | .jnc => some (b.toNat ≤ a.toNat)
  | _ => none

namespace Flags

variable (a b : Word)

/-- The flags that a difference sets. -/
def ofDifference : Flags :=
  ofResult (Arithmetic.sub a b).value (Arithmetic.sub a b).carry (Arithmetic.sub a b).overflow

theorem zero_ofDifference : (ofDifference a b).zero = decide (a = b) := by
  have hzero : a - b = 0 ↔ a = b := by bv_omega
  rw [Bool.eq_iff_iff, decide_eq_true_iff, ← hzero]
  exact beq_iff_eq

theorem carry_ofDifference : (ofDifference a b).carry = decide (a.toNat < b.toNat) := rfl

/-- The sign of the wrapped difference is the right one unless the difference overflowed. -/
theorem negative_bne_overflow_ofDifference :
    ((ofDifference a b).negative != (ofDifference a b).overflow) =
      decide (a.toInt < b.toInt) := by
  have hnegative : (ofDifference a b).negative =
      decide ((a.toInt - b.toInt).bmod 65536 < 0) := by
    rw [ofDifference, ofResult_eq, ← BitVec.toInt_sub]
    rfl
  have hoverflow : (ofDifference a b).overflow =
      decide (a.toInt - b.toInt < -32768 ∨ 32767 < a.toInt - b.toInt) := by
    rw [Bool.decide_or]
    exact Arithmetic.ssubOverflow_eq a b
  have ha : -32768 ≤ a.toInt ∧ a.toInt < 32768 := ⟨a.le_toInt, a.toInt_lt⟩
  have hb : -32768 ≤ b.toInt ∧ b.toInt < 32768 := ⟨b.le_toInt, b.toInt_lt⟩
  rw [hnegative, hoverflow, Int.bmod_def, Bool.eq_iff_iff]
  simp only [bne_iff_ne, ne_eq, decide_eq_decide, decide_eq_true_eq]
  split
  · omega
  · omega

theorem negative_beq_overflow_ofDifference :
    ((ofDifference a b).negative == (ofDifference a b).overflow) =
      decide (b.toInt ≤ a.toInt) := by
  have hsame : ((ofDifference a b).negative == (ofDifference a b).overflow) =
      !((ofDifference a b).negative != (ofDifference a b).overflow) :=
    (Bool.not_not _).symm
  rw [hsame, negative_bne_overflow_ofDifference, ← decide_not]
  exact decide_eq_decide.mpr Int.not_lt

theorem jumps_ofDifference {opcode : Opcode} {holds : Bool}
    (horder : opcode.order? a b = some holds) : (ofDifference a b).jumps opcode = holds := by
  have hequal : a = b ↔ a.toInt = b.toInt := BitVec.toInt_inj.symm
  cases opcode with
  | je =>
      cases horder
      exact zero_ofDifference a b
  | jnz =>
      cases horder
      rw [jumps, zero_ofDifference, decide_not]
  | jg =>
      cases horder
      rw [jumps, zero_ofDifference, negative_beq_overflow_ofDifference, Bool.eq_iff_iff]
      simp only [Bool.and_eq_true, Bool.not_eq_true', decide_eq_false_iff_not, decide_eq_true_eq,
        hequal]
      omega
  | jge =>
      cases horder
      exact negative_beq_overflow_ofDifference a b
  | jl =>
      cases horder
      exact negative_bne_overflow_ofDifference a b
  | jle =>
      cases horder
      rw [jumps, zero_ofDifference, negative_bne_overflow_ofDifference, Bool.eq_iff_iff]
      simp only [Bool.or_eq_true, decide_eq_true_eq, hequal]
      omega
  | jc =>
      cases horder
      exact carry_ofDifference a b
  | jnc =>
      cases horder
      rw [jumps, carry_ofDifference, ← decide_not]
      exact decide_eq_decide.mpr Nat.not_lt
  | _ => cases horder

end Flags

namespace Machine

open Execution

variable {calls : SystemCalls} {program : Program} {machine : Machine}

theorem step_of_jump {jump : Instruction} {number : Word}
    (hcurrent : machine.current? program = some jump) (hjump : jump.opcode.isJump = true)
    (htarget : target program jump = .ok number) :
    (step calls program).run machine =
      let flow : Flow := if machine.cpu.flags.jumps jump.opcode then .jump number else .next
      .ok () { machine with cpu := advance flow machine.cpu } := by
  have hexecute : execute calls program jump = branch program jump := by
    unfold execute
    cases hopcode : jump.opcode with
    | jmp | je | jnz | jg | jge | jl | jle | jc | jnc => rfl
    | _ =>
        rw [hopcode] at hjump
        cases hjump
  have hread : (read fun _ => target program jump).run machine = .ok number machine :=
    run_read_of_ok htarget
  rw [step_of_current? hcurrent, hexecute, run_branch]
  by_cases htaken : machine.cpu.flags.jumps jump.opcode = true
  · rw [if_pos htaken, if_pos htaken, EStateM.run_bind, hread]
    rfl
  · rw [if_neg htaken, if_neg htaken]

end Machine

/-- After a comparison or a subtraction of two words, a conditional jump is taken exactly where
the order that it asks for holds between them, whatever the flags were before. -/
theorem comparison_decides_jumps
    (calls : SystemCalls) (program : Program) (instruction : Instruction) (machine : Machine)
    (destination : Register) (a b : Word)
    (hcompares : instruction.opcode = .cmp ∨ instruction.opcode = .sub)
    (hcalculates : machine.Calculates program instruction destination a b) :
    ∃ after,
      (Machine.step calls program).run machine = .ok () after ∧
        ∀ opcode holds, opcode.order? a b = some holds →
          after.cpu.flags.jumps opcode = holds ∧
            ∀ jump number,
              after.current? program = some jump → jump.opcode = opcode →
                Machine.target program jump = .ok number →
                  (Machine.step calls program).run after =
                    .ok ()
                      { after with
                        cpu :=
                          Machine.advance (if holds then .jump number else .next) after.cpu } := by
  have hoperation : instruction.opcode.operation? =
      some fun a b => .ok (Arithmetic.sub a b) := by
    rcases hcompares with hopcode | hopcode
    · rw [hopcode]
      rfl
    · rw [hopcode]
      rfl
  refine ⟨_, hcalculates.run_step hoperation, fun opcode holds horder => ?_⟩
  have hjumps := Flags.jumps_ofDifference a b horder
  have hflags : (Machine.advance .next (machine.settled instruction.opcode destination
      (Arithmetic.sub a b)).cpu).flags = Flags.ofDifference a b := by
    rw [Machine.flags_advance, Machine.flags_settled]
    rfl
  refine ⟨by rw [hflags, hjumps], ?_⟩
  rintro jump number hcurrent rfl htarget
  have hjump : jump.opcode.isJump = true := by
    cases hopcode : jump.opcode with
    | je | jnz | jg | jge | jl | jle | jc | jnc => rfl
    | _ =>
        rw [hopcode] at horder
        cases horder
  rw [Machine.step_of_jump hcurrent hjump htarget]
  simp only [hflags, hjumps]

/-- A comparison, and a jump where the first word is the lesser one. -/
def Program.jumpIfLess : Program where
  instructions :=
    #[{ opcode := .cmp, operands := [.register .basePointer, .immediate 1],
        line := 1, column := 1, source := "CMP BP, #1".toList, address := 0 },
      { opcode := .jl, operands := [.immediate 7],
        line := 2, column := 1, source := "JL 7".toList, address := 1 }]
  symbols := {}
  data := #[]
  textStart := 0
  dataStart := 0

/-- The least word is less than one, though their difference overflows to a positive word. -/
theorem comparison_decides_jumps_least :
    let machine : Machine := { cpu := { basePointer := 32768 } }
    let step := Machine.step .standard .jumpIfLess
    ∃ after next,
      step.run machine = .ok () after ∧ after.cpu.flags.negative = false ∧
        step.run after = .ok () next ∧ next.cpu.instructionPointer = 7 := by
  intro machine step
  obtain ⟨after, hstep, hcurrent, hnegative⟩ : ∃ after,
      step.run machine = .ok () after ∧
        after.current? .jumpIfLess = some Program.jumpIfLess.instructions[1] ∧
          after.cpu.flags.negative = false :=
    ⟨_, rfl, rfl, by decide⟩
  have hcalculates : machine.Calculates .jumpIfLess Program.jumpIfLess.instructions[0]
      .basePointer 32768 1 :=
    ⟨rfl, rfl, rfl, fun _ => rfl⟩
  obtain ⟨compared, hok, hdecides⟩ :=
    comparison_decides_jumps .standard .jumpIfLess _ machine .basePointer 32768 1 (.inl rfl)
      hcalculates
  rw [hstep] at hok
  cases hok
  obtain ⟨-, hjump⟩ := hdecides .jl true rfl
  exact ⟨after, _, hstep, hnegative, hjump _ 7 hcurrent rfl rfl, rfl⟩

end WordMachine
