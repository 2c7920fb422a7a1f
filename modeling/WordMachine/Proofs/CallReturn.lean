import WordMachine.Proofs.LayoutExactness
import WordMachine.Proofs.StackSteps

/-!
# Returning from a call

A call leaves the number of the instruction after it on the stack, and a return
takes it from there.  A return accepts the numbers of instructions and, for a
call that is the last instruction, one number more: the count of instructions,
whatever number the text starts at.  So a call at the end of the text returns
past the end only where the text starts at zero and the numbers do not run out.
-/

namespace WordMachine

/-- The numbers of the instructions of an assembled program do not run past the last one. -/
theorem text_fits_of_assemble {source : Text} {program : Program}
    (hassemble : assemble source = .ok program) :
    program.textStart.toNat + program.instructions.size ≤ 65536 := by
  obtain ⟨layout, hlayout, hprogram⟩ := exists_of_bind_eq_ok hassemble
  obtain ⟨instructions, hresolve, rfl⟩ := Layout.of_program hprogram
  have hlength := (Layout.of_resolve hresolve).1
  obtain ⟨hroom, htext, -⟩ := Layout.starts_of_ofLines hlayout
  rw [List.size_toArray, htext, hlength]
  exact hroom

def Program.IsLast (program : Program) (address : Word) : Prop :=
  address.toNat + 1 = program.textStart.toNat + program.instructions.size

namespace Machine

variable {program : Program} {calls : SystemCalls} {call ret : Instruction}
  {before called later : Machine}

theorem isReturnTarget_iff (program : Program) (target : Word) :
    isReturnTarget program target = true ↔
      (program.textStart.toNat ≤ target.toNat ∧
          target.toNat < program.textStart.toNat + program.instructions.size) ∨
        target.toNat = program.instructions.size := by
  rw [isReturnTarget, Bool.or_eq_true, Program.instructionAt?_isSome_iff, beq_iff_eq]

/-- The machine at the instruction after a call, with the stack pointer that the call found. -/
def returned (before later : Machine) : Machine :=
  { later with
    cpu :=
      { later.cpu with
        stackPointer := before.cpu.stackPointer
        instructionPointer := before.cpu.instructionPointer + 1 } }

/-- A return that finds what a call has left goes behind the call, if it goes anywhere. -/
theorem step_ret_of_step_call
    (hbefore : before.cpu.halted = false)
    (hcall : program.instructionAt? before.cpu.instructionPointer = some call)
    (hcallOpcode : call.opcode = .call)
    (hcalled : (step calls program).run before = .ok () called)
    (hlater : later.cpu.halted = false)
    (hret : program.instructionAt? later.cpu.instructionPointer = some ret)
    (hretOpcode : ret.opcode = .ret)
    (hpointer : later.cpu.stackPointer = called.cpu.stackPointer)
    (hword : later.memory.wordAt called.cpu.stackPointer.toNat =
      called.memory.wordAt called.cpu.stackPointer.toNat) :
    (step calls program).run later =
      if isReturnTarget program (before.cpu.instructionPointer + 1) then
        .ok () (returned before later)
      else .error (.fault (.corruptReturn (before.cpu.instructionPointer + 1))) later := by
  obtain ⟨htop, hstack, hmemory⟩ := pushed_of_step_call hbefore hcall hcallOpcode hcalled
  have hlaterTop : later.HasTop := by
    rw [HasTop, hpointer, hstack]
    exact htop
  have hreturn : later.top = before.cpu.instructionPointer + 1 := by
    rw [top, hpointer, hword, hmemory, hstack]
    exact top_pushed htop
  have hrestored : later.cpu.stackPointer + 2 = before.cpu.stackPointer := by
    rw [hpointer, hstack]
    exact BitVec.sub_add_cancel _ _
  rw [step_ret hlater hret hretOpcode hlaterTop, hreturn, popped, hrestored]
  rfl

end Machine

/-- A return that finds what a call has left on the stack goes on behind the call, with the
stack pointer that the call found, as long as there is an instruction behind it.  Behind the
last instruction it ends the program only if the text starts at zero; if the text starts
elsewhere the return is refused.  Where the numbers run out at a call it goes on at number
zero. -/
theorem return_after_call
    (source : Text) (program : Program) (hassemble : assemble source = .ok program)
    (calls : SystemCalls) (call ret : Instruction) (before called later : Machine)
    (hbefore : before.cpu.halted = false)
    (hcall : program.instructionAt? before.cpu.instructionPointer = some call)
    (hcallOpcode : call.opcode = .call)
    (hcalled : (Machine.step calls program).run before = .ok () called)
    (hlater : later.cpu.halted = false)
    (hret : program.instructionAt? later.cpu.instructionPointer = some ret)
    (hretOpcode : ret.opcode = .ret)
    (hpointer : later.cpu.stackPointer = called.cpu.stackPointer)
    (hword : later.memory.wordAt called.cpu.stackPointer.toNat =
      called.memory.wordAt called.cpu.stackPointer.toNat) :
    let here := before.cpu.instructionPointer
    let step := Machine.step calls program
    let returned := Machine.returned before later
    (¬program.IsLast here →
        (here + 1).toNat = here.toNat + 1 ∧ step.run later = .ok () returned) ∧
      (program.IsLast here → program.textStart ≠ 0 →
        step.run later = .error (.fault (.corruptReturn (here + 1))) later) ∧
      (program.IsLast here → program.textStart = 0 → here ≠ 65535 →
        step.run later = .ok () returned ∧ step.run returned = .ok () returned.halt) ∧
      (program.IsLast here → program.textStart = 0 → here = 65535 →
        step.run later = .ok () returned ∧ returned.cpu.instructionPointer = 0) := by
  intro here step returned
  have hfits := text_fits_of_assemble hassemble
  have hhere : (program.instructionAt? here).isSome = true := by rw [hcall]; rfl
  rw [Program.instructionAt?_isSome_iff] at hhere
  have hnext : (here + 1).toNat = (here.toNat + 1) % 65536 := BitVec.toNat_add here 1
  have hstep := Machine.step_ret_of_step_call hbefore hcall hcallOpcode hcalled hlater hret
    hretOpcode hpointer hword
  have haccepted : (program.textStart.toNat ≤ (here + 1).toNat ∧
        (here + 1).toNat < program.textStart.toNat + program.instructions.size) ∨
      (here + 1).toNat = program.instructions.size →
        step.run later = .ok () returned :=
    fun htarget => hstep.trans (if_pos ((Machine.isReturnTarget_iff program _).mpr htarget))
  have hzero : program.textStart = 0 ↔ program.textStart.toNat = 0 := BitVec.toNat_eq
  have htop : here = 65535 ↔ here.toNat = 65535 := BitVec.toNat_eq
  -- only the number after 65535 wraps: each case is arithmetic on where the text starts,
  -- how many instructions it has and which of them the call is
  unfold Program.IsLast
  refine ⟨?_, ?_, ?_, ?_⟩
  · intro hinside
    exact ⟨by omega, haccepted (by omega)⟩
  · intro hlast hstart
    rw [ne_eq, hzero] at hstart
    have hrefused : ¬Machine.isReturnTarget program (here + 1) = true := by
      rw [Machine.isReturnTarget_iff]
      omega
    exact hstep.trans (if_neg hrefused)
  · intro hlast hstart hroom
    rw [hzero] at hstart
    rw [ne_eq, htop] at hroom
    have hnone : program.instructionAt? (here + 1) = none := by
      rw [← Option.not_isSome_iff_eq_none, Program.instructionAt?_isSome_iff]
      omega
    exact ⟨haccepted (by omega), Machine.step_of_no_instruction hlater hnone⟩
  · intro hlast hstart hlastNumber
    rw [hzero] at hstart
    rw [htop] at hlastNumber
    have hwraps : here + 1 = 0 := by
      apply BitVec.eq_of_toNat_eq
      rw [hnext, hlastNumber]
      rfl
    exact ⟨haccepted (by omega), hwraps⟩

/-- A program whose last instruction is a call, with its text at a number. -/
def Program.endingCall (start : Word) : Program where
  instructions :=
    #[{ opcode := .jmp, operands := [.label "main".toList],
        line := 2, column := 1, source := "JMP main".toList, address := start },
      { opcode := .ret, operands := [],
        line := 3, column := 4, source := "RET".toList, address := start + 1 },
      { opcode := .call, operands := [.label ['f']],
        line := 4, column := 7, source := "CALL f".toList, address := start + 2 }]
  symbols :=
    ⟨[{ name := ['f'], value := start.toNat + 1, kind := .code, line := 3 },
      { name := "main".toList, value := start.toNat + 2, kind := .code, line := 4 }]⟩
  data := #[]
  textStart := start
  dataStart := 0

def Machine.beforeEndingCall (start : Word) : Machine :=
  { Machine.ofProgram (.endingCall start) with cpu := { instructionPointer := start + 2 } }

def Machine.inEndingCall (start : Word) : Machine :=
  { (beforeEndingCall start).pushed (start + 3) with
    cpu := { stackPointer := 65534, instructionPointer := start + 1 } }

theorem return_after_call_endingCall :
    let source := ".ORG 0\nJMP main\nf: RET\nmain: CALL f".toList
    let step := Machine.step .standard (.endingCall 0)
    let returned := Machine.returned (.beforeEndingCall 0) (.inEndingCall 0)
    assemble source = .ok (.endingCall 0) ∧
      step.run (.beforeEndingCall 0) = .ok () (.inEndingCall 0) ∧
        step.run (.inEndingCall 0) = .ok () returned ∧
          step.run returned = .ok () returned.halt := by
  intro source step returned
  have hassemble : assemble source = .ok (.endingCall 0) := by decide +kernel
  have hcalled : step.run (.beforeEndingCall 0) = .ok () (.inEndingCall 0) := by rfl
  refine ⟨hassemble, hcalled, ?_⟩
  have hreturn := return_after_call source _ hassemble .standard _ _ _ _ _ rfl rfl rfl hcalled
    rfl rfl rfl rfl rfl
  exact hreturn.2.2.1 rfl rfl (by decide)

/-- Moved away from zero, the same program may not return. -/
theorem return_refused_endingCall :
    let source := ".ORG 4\nJMP main\nf: RET\nmain: CALL f".toList
    let step := Machine.step .standard (.endingCall 4)
    assemble source = .ok (.endingCall 4) ∧
      step.run (Machine.ofProgram (.endingCall 4)) = .ok () (.beforeEndingCall 4) ∧
        step.run (.beforeEndingCall 4) = .ok () (.inEndingCall 4) ∧
          step.run (.inEndingCall 4) = .error (.fault (.corruptReturn 7)) (.inEndingCall 4) := by
  intro source step
  exact ⟨by decide +kernel, rfl, rfl, rfl⟩

end WordMachine
