import WordMachine.Proofs.AvoidedFailures

/-!
# What leaves the stack alone

A push, a pop, a call and a return move the stack pointer, and so may an
instruction that names it as its destination.  Nothing else moves it, and only a
push, a call and a store write to memory.  That the stack is empty is found by a
pop or a return and by nothing else.
-/

namespace WordMachine

/-! ## Destinations -/

namespace Opcode

/-- Whether the first operand is the register that the result goes to. -/
def writesRegister : Opcode → Bool
  | mov | load | pop | add | sub | mul | div | mod | inc | dec | neg | not
  | and | or | xor | shl | shr => true
  | _ => false

/-- Whether words are pushed or popped. -/
def usesStack : Opcode → Bool
  | push | pop | call | ret => true
  | _ => false

end Opcode

namespace Instruction

variable {instruction : Instruction} {position : Nat} {register : Register}

/-- The register that the instruction names for its result. -/
def destination? (instruction : Instruction) : Option Register :=
  if instruction.opcode.writesRegister then
    match instruction.operands[0]? with
    | some (Operand.register register) => some register
    | _ => none
  else none

theorem registerAt_eq_ok_iff :
    instruction.registerAt position = .ok register ↔
      instruction.operands[position]? = some (.register register) := by
  unfold registerAt operandAt
  cases instruction.operands[position]? with
  | none => exact ⟨nofun, nofun⟩
  | some operand =>
      cases operand with
      | register other => simp [bind, Except.bind]
      | immediate | memory | label => exact ⟨nofun, nofun⟩

theorem ne_of_registerAt (hdestination : instruction.destination? ≠ some .stackPointer)
    (hwrites : instruction.opcode.writesRegister = true)
    (hregister : instruction.registerAt 0 = .ok register) : register ≠ .stackPointer := by
  rintro rfl
  apply hdestination
  rw [destination?, if_pos hwrites, registerAt_eq_ok_iff.mp hregister]

end Instruction

theorem Cpu.stackPointer_set {register : Register} (hother : register ≠ .stackPointer)
    (cpu : Cpu) (value : Word) : (cpu.set register value).stackPointer = cpu.stackPointer := by
  cases register with
  | general | basePointer => rfl
  | stackPointer => exact absurd rfl hother

/-! ## Work that keeps the stack -/

namespace Execution

variable {α β : Type}

/-- Where the work succeeds, memory and the stack pointer are as they were. -/
def KeepsStack (work : Execution α) : Prop :=
  ∀ machine value after, work.run machine = .ok value after →
    after.memory = machine.memory ∧ after.cpu.stackPointer = machine.cpu.stackPointer

theorem KeepsStack.bind {work : Execution α} {rest : α → Execution β}
    (hwork : KeepsStack work) (hrest : ∀ value, KeepsStack (rest value)) :
    KeepsStack (work >>= rest) := by
  intro machine result after hrun
  obtain ⟨value, between, hfirst, hlater⟩ := exists_of_run_bind_ok hrun
  obtain ⟨hmemory, hpointer⟩ := hwork machine value between hfirst
  obtain ⟨hmemory', hpointer'⟩ := hrest value between result after hlater
  exact ⟨hmemory'.trans hmemory, hpointer'.trans hpointer⟩

theorem keepsStack_pure (value : α) : KeepsStack (pure value) := by
  intro machine result after hrun
  cases hrun
  exact ⟨rfl, rfl⟩

theorem keepsStack_get : KeepsStack get := by
  intro machine result after hrun
  cases hrun
  exact ⟨rfl, rfl⟩

theorem keepsStack_liftExcept (result : Except Failure α) : KeepsStack (liftExcept result) := by
  cases result with
  | ok value => exact keepsStack_pure value
  | error failure =>
      intro machine value after hrun
      cases hrun

theorem keepsStack_read (look : Machine → Except Failure α) : KeepsStack (read look) :=
  keepsStack_get.bind fun machine => keepsStack_liftExcept (look machine)

theorem keepsStack_modify {change : Machine → Machine}
    (hchange : ∀ machine, (change machine).memory = machine.memory ∧
      (change machine).cpu.stackPointer = machine.cpu.stackPointer) :
    KeepsStack (modify change) := by
  intro machine result after hrun
  cases hrun
  exact hchange machine

theorem keepsStack_modifyCpu {change : Cpu → Cpu}
    (hchange : ∀ cpu, (change cpu).stackPointer = cpu.stackPointer) :
    KeepsStack (modifyCpu change) :=
  keepsStack_modify fun machine => ⟨rfl, hchange machine.cpu⟩

end Execution

/-- The failure is that of an empty stack. -/
def Failure.IsUnderflow (failure : Failure) : Prop := failure = .fault .stackUnderflow

open Execution

/-- A host that leaves the stack pointer alone and does not say that the stack is empty. -/
structure SystemCalls.LeaveStack (calls : SystemCalls) : Prop where
  keeps : ∀ number memory view after,
    (calls number memory).run view = .ok () after →
      after.cpu.stackPointer = view.cpu.stackPointer
  avoids : ∀ number memory, Avoids Failure.IsUnderflow (calls number memory)

theorem SystemCalls.standard_leaveStack : SystemCalls.standard.LeaveStack where
  keeps := by
    intro number memory view after hrun
    unfold SystemCalls.standard at hrun
    split at hrun
    case h_6 => cases hrun
    all_goals
      cases hrun
      rfl
  avoids := by
    intro number memory
    unfold SystemCalls.standard
    split
    case h_6 => exact avoids_throw nofun
    all_goals exact (neverFails_modify _).avoids

namespace Machine

variable {program : Program} {instruction : Instruction} {calls : SystemCalls}

theorem write_keepsStack (hdestination : instruction.destination? ≠ some .stackPointer)
    (hwrites : instruction.opcode.writesRegister = true) (outcome : Outcome) :
    KeepsStack (write instruction outcome) := by
  intro machine result after hrun
  obtain ⟨register, between, hread, hmodify⟩ := exists_of_run_bind_ok hrun
  obtain ⟨hregister, rfl⟩ := look_of_run_read hread
  cases hmodify
  have hother := Instruction.ne_of_registerAt hdestination hwrites hregister
  exact ⟨rfl, Cpu.stackPointer_set hother between.cpu outcome.value⟩

theorem compute_keepsStack (operation : Word → Word → Except Fault Outcome) :
    KeepsStack (compute program instruction operation) :=
  (keepsStack_read _).bind fun _ => (keepsStack_read _).bind fun _ => keepsStack_liftExcept _

theorem systemCall_keepsStack (hcalls : calls.LeaveStack) (number : Word) :
    KeepsStack (systemCall calls number) := by
  refine KeepsStack.bind ?_ fun _ => keepsStack_get.bind fun _ => keepsStack_pure _
  intro machine result after hrun
  simp only [EStateM.run, onHostView] at hrun
  cases hcall : calls number machine.memory { cpu := machine.cpu, console := machine.console } with
  | error failure view =>
      rw [hcall] at hrun
      cases hrun
  | ok value view =>
      rw [hcall] at hrun
      cases hrun
      exact ⟨rfl, hcalls.keeps number machine.memory _ view hcall⟩

theorem branch_keepsStack : KeepsStack (branch program instruction) := by
  refine keepsStack_get.bind fun machine => ?_
  split
  · exact (keepsStack_read _).bind fun _ => keepsStack_pure _
  · exact keepsStack_pure _

theorem thenNext_keepsStack {work : Execution Unit} (hwork : KeepsStack work) :
    KeepsStack (thenNext work) :=
  hwork.bind fun _ => keepsStack_pure _

theorem execute_keepsStack (hcalls : calls.LeaveStack)
    (hdestination : instruction.destination? ≠ some .stackPointer)
    (hstack : instruction.opcode.usesStack = false) (hstore : instruction.opcode ≠ .store) :
    KeepsStack (execute calls program instruction) := by
  have hwrite : instruction.opcode.writesRegister = true →
      ∀ outcome, KeepsStack (write instruction outcome) :=
    fun hwrites => write_keepsStack hdestination hwrites
  unfold execute
  cases hopcode : instruction.opcode with
  | push | pop | call | ret | store => simp [hopcode, Opcode.usesStack] at hstack hstore
  | mov =>
      rw [hopcode] at hwrite
      exact thenNext_keepsStack ((keepsStack_read _).bind fun _ => hwrite rfl _)
  | load =>
      rw [hopcode] at hwrite
      exact thenNext_keepsStack ((keepsStack_read _).bind fun _ =>
        (keepsStack_read _).bind fun _ => hwrite rfl _)
  | add | sub | mul | div | mod | and | or | xor | shl | shr =>
      rw [hopcode] at hwrite
      exact thenNext_keepsStack ((compute_keepsStack _).bind fun _ => hwrite rfl _)
  | inc | dec | neg | not =>
      rw [hopcode] at hwrite
      exact thenNext_keepsStack ((keepsStack_read _).bind fun _ => hwrite rfl _)
  | cmp =>
      exact thenNext_keepsStack ((compute_keepsStack _).bind fun _ =>
        keepsStack_modifyCpu fun _ => rfl)
  | jmp | je | jnz | jg | jge | jl | jle | jc | jnc => exact branch_keepsStack
  | sys => exact (keepsStack_read _).bind fun _ => systemCall_keepsStack hcalls _
  | nop => exact thenNext_keepsStack (keepsStack_pure _)
  | hlt =>
      have hhalt : KeepsStack (modify halt) := keepsStack_modify fun _ => ⟨rfl, rfl⟩
      exact hhalt.bind fun _ => keepsStack_pure _

end Machine

/-! ## Who finds the stack empty -/

theorem Failure.BlamesOperand.not_isUnderflow {failure : Failure}
    (hblames : failure.BlamesOperand) : ¬failure.IsUnderflow := by
  rintro rfl
  exact hblames

theorem Execution.avoids_lookup {α : Type} {look : Machine → Except Failure α}
    (hlook : ∀ machine, FailsAtOperand (look machine)) :
    Avoids Failure.IsUnderflow (read look) :=
  avoids_read fun machine failure herror => (hlook machine failure herror).not_isUnderflow

theorem Failure.BlamesAddress.not_isUnderflow {failure : Failure}
    (haddress : failure.BlamesAddress) : ¬failure.IsUnderflow := by
  rintro rfl
  exact haddress

/-- Beside a pop and a return, nothing finds the stack empty. -/
theorem Machine.execute_avoids_underflow
    {program : Program} {instruction : Instruction} {calls : SystemCalls}
    (hcalls : calls.LeaveStack) (hstack : instruction.opcode.usesStack = false) :
    Avoids Failure.IsUnderflow (execute calls program instruction) := by
  have hregister : Avoids Failure.IsUnderflow (read fun _ => instruction.registerAt 0) :=
    avoids_lookup fun _ => failsAtOperand_registerAt
  have hvalue : ∀ position,
      Avoids Failure.IsUnderflow (read (value program instruction position)) :=
    fun _ => avoids_lookup fun _ => failsAtOperand_value
  have haddress : ∀ position,
      Avoids Failure.IsUnderflow (read (address program instruction position)) :=
    fun _ => avoids_lookup fun _ => failsAtOperand_address
  have htarget : Avoids Failure.IsUnderflow (read fun _ => target program instruction) :=
    avoids_lookup fun _ => failsAtOperand_target
  have haddresses : ∀ failure : Failure, failure.BlamesAddress → ¬failure.IsUnderflow :=
    fun _ haddress => haddress.not_isUnderflow
  unfold execute
  cases hopcode : instruction.opcode with
  | push | pop | call | ret =>
      rw [hopcode] at hstack
      cases hstack
  | mov => exact thenNext_avoids ((hvalue 1).bind fun _ => write_avoids hregister _)
  | load => exact thenNext_avoids (load_avoids hregister (haddress 1) haddresses)
  | store => exact thenNext_avoids (store_avoids (haddress 0) (hvalue 1) haddresses)
  | add | sub | mul | and | or | xor | shl | shr =>
      exact thenNext_avoids (binary_avoids hregister (hvalue 1) fun _ _ _ => nofun)
  | div | mod =>
      refine thenNext_avoids (binary_avoids hregister (hvalue 1) ?_)
      intro a b fault hfault
      rw [Arithmetic.fault_of_guarded hfault]
      exact nofun
  | cmp =>
      have hcompute : Avoids Failure.IsUnderflow (compute program instruction fun a b =>
          .ok (Arithmetic.sub a b)) :=
        compute_avoids hregister (hvalue 1) fun _ _ _ => nofun
      exact thenNext_avoids (hcompute.bind fun _ => (neverFails_modifyCpu _).avoids)
  | inc | dec | neg | not => exact thenNext_avoids (unary_avoids hregister _)
  | jmp | je | jnz | jg | jge | jl | jle | jc | jnc => exact branch_avoids htarget
  | sys =>
      exact (hvalue 0).bind fun number => systemCall_avoids number (hcalls.avoids number)
  | nop => exact thenNext_avoids (neverFails_pure _).avoids
  | hlt => exact (neverFails_modify _).avoids.bind fun _ => (neverFails_pure _).avoids

end WordMachine
