import WordMachine.Isa.Signature
import WordMachine.Proofs.AvoidedFailures

/-!
# Checked operands can be executed

The signature of an opcode and the branch of the machine that executes it were
written apart from each other.  They agree: where the operands of an instruction
fit the signature and name only symbols of the program, executing it finds at
each position what it looks for there.  What is left is the number that a branch
goes to, which no signature bounds.
-/

namespace WordMachine

/-! ## What the signature promises -/

namespace Opcode

variable {opcode : Opcode} {accepted : List OperandKind} {operand : Operand}

theorem kind_mem_of_firstMismatch
    {signature : List (List OperandKind)} {operands : List Operand} {first index : Nat}
    (hfits : opcode.firstMismatch first signature operands = .ok ())
    (haccepted : signature[index]? = some accepted)
    (hoperand : operands[index]? = some operand) :
    operand.kind ∈ accepted := by
  induction signature generalizing operands first index with
  | nil => cases haccepted
  | cons kinds signature ih =>
      cases operands with
      | nil => cases hoperand
      | cons head operands =>
          rw [firstMismatch] at hfits
          by_cases hkind : head.kind ∈ kinds
          · rw [if_pos hkind] at hfits
            cases index with
            | zero =>
                cases haccepted
                cases hoperand
                exact hkind
            | succ index => exact ih hfits haccepted hoperand
          · rw [if_neg hkind] at hfits
            cases hfits

theorem length_of_check {operands : List Operand} (hcheck : opcode.check operands = .ok ()) :
    operands.length = opcode.signature.length := by
  unfold check at hcheck
  by_cases hlength : operands.length = opcode.signature.length
  · exact hlength
  · rw [if_neg hlength] at hcheck
    cases hcheck

theorem exists_operand_of_check {operands : List Operand} {index : Nat}
    (hcheck : opcode.check operands = .ok ())
    (haccepted : opcode.signature[index]? = some accepted) :
    ∃ operand, operands[index]? = some operand ∧ operand.kind ∈ accepted := by
  have hlength := length_of_check hcheck
  have hindex : index < operands.length := by
    rw [hlength]
    exact (List.getElem?_eq_some_iff.mp haccepted).1
  rw [check, if_pos hlength] at hcheck
  have hoperand := List.getElem?_eq_getElem hindex
  exact ⟨operands[index], hoperand, kind_mem_of_firstMismatch hcheck haccepted hoperand⟩

theorem signature_of_isBranch (hbranch : opcode.isBranch = true) :
    opcode.signature = [Opcode.target] := by
  cases opcode with
  | jmp | je | jnz | jg | jge | jl | jle | jc | jnc | call => rfl
  | _ => cases hbranch

end Opcode

/-- The number that a branch to an operand would go to, representable or not. -/
def Program.targetValue? (program : Program) : Operand → Option Int
  | .immediate value => some value
  | .label name => program.symbols.value? name
  | .register _ | .memory _ => none

namespace Instruction

variable (instruction : Instruction)

def HasRegister (position : Nat) : Prop :=
  ∃ register, instruction.registerAt position = .ok register

def HasValue (program : Program) (position : Nat) : Prop :=
  ∀ machine, ∃ value, Machine.value program instruction position machine = .ok value

def HasAddress (program : Program) (position : Nat) : Prop :=
  ∀ machine, ∃ address, Machine.address program instruction position machine = .ok address

end Instruction

/-- The operands fit the signature and name symbols of the program. -/
structure Instruction.Checked (instruction : Instruction) (program : Program) : Prop where
  accepted : instruction.opcode.check instruction.operands = .ok ()
  defined : ∀ operand ∈ instruction.operands, ∀ name,
    operand.labelName? = some name → (program.symbols.value? name).isSome = true

namespace Instruction.Checked

variable {program : Program} {instruction : Instruction}

theorem valueOf (hchecked : instruction.Checked program) {position : Nat} {operand : Operand}
    {name : Text}
    (hoperand : instruction.operands[position]? = some operand)
    (hname : operand.labelName? = some name) :
    ∃ value, program.symbols.value? name = some value ∧ program.valueOf name = .ok value := by
  have hdefined := hchecked.defined operand (List.mem_of_getElem? hoperand) name hname
  obtain ⟨value, hvalue⟩ := Option.isSome_iff_exists.mp hdefined
  exact ⟨value, hvalue, by rw [Program.valueOf, hvalue]⟩

theorem hasRegister (hchecked : instruction.Checked program) (position : Nat)
    (hsignature : instruction.opcode.signature[position]? = some [.register]) :
    instruction.HasRegister position := by
  obtain ⟨operand, hoperand, hkind⟩ :=
    Opcode.exists_operand_of_check hchecked.accepted hsignature
  cases operand with
  | register register =>
      refine ⟨register, ?_⟩
      rw [registerAt, operandAt, hoperand]
      rfl
  | immediate | memory | label => simp [Operand.kind] at hkind

theorem hasValue (hchecked : instruction.Checked program) (position : Nat)
    {accepted : List OperandKind}
    (hsignature : instruction.opcode.signature[position]? = some accepted)
    (hvalues : OperandKind.memory ∉ accepted) :
    instruction.HasValue program position := by
  intro machine
  obtain ⟨operand, hoperand, hkind⟩ :=
    Opcode.exists_operand_of_check hchecked.accepted hsignature
  rw [Machine.value, operandAt, hoperand]
  cases operand with
  | register register => exact ⟨machine.cpu.get register, rfl⟩
  | immediate number => exact ⟨BitVec.ofInt 16 number, rfl⟩
  | memory address => exact absurd hkind hvalues
  | label name =>
      obtain ⟨number, -, hnumber⟩ := hchecked.valueOf hoperand rfl
      exact ⟨BitVec.ofInt 16 number, congrArg (BitVec.ofInt 16 <$> ·) hnumber⟩

theorem hasRegister_hasValue (hchecked : instruction.Checked program)
    (hsignature : instruction.opcode.signature = [[.register], Opcode.value]) :
    instruction.HasRegister 0 ∧ instruction.HasValue program 1 := by
  have hfirst : instruction.opcode.signature[0]? = some [.register] := by
    rw [hsignature]
    rfl
  have hsecond : instruction.opcode.signature[1]? = some Opcode.value := by
    rw [hsignature]
    rfl
  exact ⟨hchecked.hasRegister 0 hfirst, hchecked.hasValue 1 hsecond (by decide)⟩

theorem hasAddress (hchecked : instruction.Checked program) (position : Nat)
    (hsignature : instruction.opcode.signature[position]? = some [.memory]) :
    instruction.HasAddress program position := by
  intro machine
  obtain ⟨operand, hoperand, hkind⟩ :=
    Opcode.exists_operand_of_check hchecked.accepted hsignature
  rw [Machine.address, operandAt, hoperand]
  cases operand with
  | memory address =>
      cases address with
      | absolute address => exact ⟨address.toNat, rfl⟩
      | indirect base offset => exact ⟨(machine.cpu.get base).toNat + offset, rfl⟩
      | label name =>
          obtain ⟨number, -, hnumber⟩ := hchecked.valueOf hoperand rfl
          exact ⟨number, hnumber⟩
  | register | immediate | label => simp [Operand.kind] at hkind

/-- A branch has one operand, whose value is where it goes if that is a number at all. -/
theorem target (hchecked : instruction.Checked program)
    (hbranch : instruction.opcode.isBranch = true) :
    ∃ operand value,
      instruction.operands = [operand] ∧ program.targetValue? operand = some value ∧
        Machine.target program instruction =
          if 0 ≤ value ∧ value ≤ 65535 then .ok (BitVec.ofInt 16 value)
          else .error (.fault (.invalidOperand instruction.opcode 1)) := by
  have hsignature := Opcode.signature_of_isBranch hbranch
  have hlength := Opcode.length_of_check hchecked.accepted
  rw [hsignature] at hlength
  obtain ⟨operand, honly⟩ := List.length_eq_one_iff.mp hlength
  have hoperand : instruction.operands[0]? = some operand := by rw [honly]; rfl
  have hkind : operand.kind ∈ Opcode.target := by
    have hfirst : instruction.opcode.signature[0]? = some Opcode.target := by
      rw [hsignature]
      rfl
    obtain ⟨found, hfound, hkind⟩ := Opcode.exists_operand_of_check hchecked.accepted hfirst
    rw [hoperand] at hfound
    cases hfound
    exact hkind
  rw [Machine.target, operandAt, hoperand]
  cases operand with
  | immediate value => exact ⟨_, value, honly, rfl, rfl⟩
  | label name =>
      obtain ⟨value, hvalue, hnumber⟩ := hchecked.valueOf hoperand rfl
      refine ⟨_, value, honly, hvalue, ?_⟩
      simp only [bind, Except.bind, hnumber]
      rfl
  | register | memory => simp [Operand.kind, Opcode.target] at hkind

end Instruction.Checked

/-! ## Executing a checked instruction -/

open Execution

section Lookups

variable {kind : Failure → Prop} {program : Program} {instruction : Instruction} {position : Nat}

theorem Instruction.HasRegister.avoids (hregister : instruction.HasRegister position) :
    Avoids kind (read fun _ => instruction.registerAt position) :=
  avoids_read_of_ok fun _ => hregister

theorem Instruction.HasValue.avoids (hvalue : instruction.HasValue program position) :
    Avoids kind (read (Machine.value program instruction position)) :=
  avoids_read_of_ok hvalue

theorem Instruction.HasAddress.avoids (haddress : instruction.HasAddress program position) :
    Avoids kind (read (Machine.address program instruction position)) :=
  avoids_read_of_ok haddress

end Lookups

theorem SystemCalls.standard_avoids (number : Word) (memory : Memory) :
    Avoids Failure.BlamesOperand (SystemCalls.standard number memory) := by
  unfold SystemCalls.standard
  split
  case h_6 => exact avoids_throw id
  all_goals exact (neverFails_modify _).avoids

namespace Machine

variable {program : Program} {instruction : Instruction}

theorem peek_avoids {machine : Machine} {failure : Failure}
    (hpeek : machine.peek = .error failure) : ¬failure.BlamesOperand := by
  unfold peek at hpeek
  split at hpeek
  · cases hpeek
    exact id
  · exact (Memory.blamesAddress_of_readWord hpeek).not_blamesOperand

theorem push_avoids (program : Program) (value : Word) :
    Avoids Failure.BlamesOperand (push program value) := by
  refine neverFails_get.avoids.bind fun machine => ?_
  dsimp only
  split
  · exact avoids_throw id
  · have hwrite : Avoids Failure.BlamesOperand
        (Memory.writeWord (machine.cpu.stackPointer - 2).toNat value) :=
      Memory.writeWord_avoids (fun _ haddress => haddress.not_blamesOperand) _ value
    exact hwrite.onMemory.bind fun _ => (neverFails_modifyCpu _).avoids

theorem pop_avoids : Avoids Failure.BlamesOperand pop :=
  (avoids_read fun _ _ => peek_avoids).bind fun _ =>
    (neverFails_modifyCpu _).avoids.bind fun _ => (neverFails_pure _).avoids

theorem popInto_avoids (hregister : instruction.HasRegister 0) :
    Avoids Failure.BlamesOperand (popInto instruction) :=
  hregister.avoids.bind fun _ => pop_avoids.bind fun _ => (neverFails_modifyCpu _).avoids

theorem ret_avoids (program : Program) : Avoids Failure.BlamesOperand (ret program) := by
  refine (avoids_read fun _ _ => peek_avoids).bind fun target => ?_
  split
  · exact pop_avoids.bind fun _ => (neverFails_pure _).avoids
  · exact avoids_throw id

theorem call_avoids (htarget : ∃ number, target program instruction = .ok number) :
    Avoids Failure.BlamesOperand (call program instruction) :=
  (avoids_read_of_ok fun _ => htarget).bind fun _ =>
    neverFails_get.avoids.bind fun _ =>
      (push_avoids program _).bind fun _ => (neverFails_pure _).avoids

/-- A checked instruction can blame an operand only if it is a branch that leads nowhere. -/
theorem execute_avoids (hchecked : instruction.Checked program)
    (htarget : instruction.opcode.isBranch = true →
      ∃ number, target program instruction = .ok number) :
    Avoids Failure.BlamesOperand (execute .standard program instruction) := by
  have haddresses : ∀ failure : Failure, failure.BlamesAddress → ¬failure.BlamesOperand :=
    fun _ haddress => haddress.not_blamesOperand
  unfold execute
  -- one case for each branch of the machine: what it looks for, its signature promises
  cases hopcode : instruction.opcode with
  | mov =>
      obtain ⟨hregister, hvalue⟩ := hchecked.hasRegister_hasValue (by rw [hopcode]; rfl)
      exact thenNext_avoids (hvalue.avoids.bind fun _ => write_avoids hregister.avoids _)
  | load =>
      have hregister := hchecked.hasRegister 0 (by rw [hopcode]; rfl)
      have haddress := hchecked.hasAddress 1 (by rw [hopcode]; rfl)
      exact thenNext_avoids (load_avoids hregister.avoids haddress.avoids haddresses)
  | store =>
      have haddress := hchecked.hasAddress 0 (by rw [hopcode]; rfl)
      have hvalue := hchecked.hasValue 1 (by rw [hopcode]; rfl) (by decide)
      exact thenNext_avoids (store_avoids haddress.avoids hvalue.avoids haddresses)
  | push =>
      have hvalue := hchecked.hasValue 0 (by rw [hopcode]; rfl) (by decide)
      exact thenNext_avoids (hvalue.avoids.bind fun _ => push_avoids program _)
  | pop =>
      have hregister := hchecked.hasRegister 0 (by rw [hopcode]; rfl)
      exact thenNext_avoids (popInto_avoids hregister)
  | cmp =>
      obtain ⟨hregister, hvalue⟩ := hchecked.hasRegister_hasValue (by rw [hopcode]; rfl)
      exact thenNext_avoids ((compute_avoids hregister.avoids hvalue.avoids fun _ _ _ => nofun).bind
        fun _ => (neverFails_modifyCpu _).avoids)
  | add | sub | mul | and | or | xor | shl | shr =>
      obtain ⟨hregister, hvalue⟩ := hchecked.hasRegister_hasValue (by rw [hopcode]; rfl)
      exact thenNext_avoids (binary_avoids hregister.avoids hvalue.avoids fun _ _ _ => nofun)
  | div | mod =>
      obtain ⟨hregister, hvalue⟩ := hchecked.hasRegister_hasValue (by rw [hopcode]; rfl)
      refine thenNext_avoids (binary_avoids hregister.avoids hvalue.avoids ?_)
      intro a b fault hfault
      rw [Arithmetic.fault_of_guarded hfault]
      exact id
  | inc | dec | neg | not =>
      have hregister := hchecked.hasRegister 0 (by rw [hopcode]; rfl)
      exact thenNext_avoids (unary_avoids hregister.avoids _)
  | jmp | je | jnz | jg | jge | jl | jle | jc | jnc =>
      have hlook : ∀ machine : Machine, ∃ number, target program instruction = .ok number :=
        fun _ => htarget (by rw [hopcode]; rfl)
      exact branch_avoids (avoids_read_of_ok hlook)
  | call => exact call_avoids (htarget (by rw [hopcode]; rfl))
  | ret => exact ret_avoids program
  | sys =>
      have hvalue := hchecked.hasValue 0 (by rw [hopcode]; rfl) (by decide)
      exact hvalue.avoids.bind fun number =>
        systemCall_avoids number (SystemCalls.standard_avoids number)
  | nop => exact thenNext_avoids (neverFails_pure _).avoids
  | hlt => exact (neverFails_modify _).avoids.bind fun _ => (neverFails_pure _).avoids

/-! ## Branches that go astray -/

/-- The instruction branches, and where it would go is no instruction number. -/
def Strays (program : Program) (instruction : Instruction) (machine : Machine) : Prop :=
  machine.cpu.flags.jumps instruction.opcode = true ∧
    ∃ operand value,
      instruction.operands = [operand] ∧ program.targetValue? operand = some value ∧
        ¬(0 ≤ value ∧ value ≤ 65535)

theorem isBranch_of_jumps {flags : Flags} {opcode : Opcode} (hjumps : flags.jumps opcode = true) :
    opcode.isBranch = true := by
  cases opcode with
  | jmp | je | jnz | jg | jge | jl | jle | jc | jnc | call => rfl
  | _ => cases hjumps

variable {machine machine' : Machine} {failure : Failure}

theorem run_branch (program : Program) (instruction : Instruction) (machine : Machine) :
    (branch program instruction).run machine =
      if machine.cpu.flags.jumps instruction.opcode then
        (do return .jump (← read fun _ => target program instruction) : Execution Flow).run machine
      else .ok .next machine := by
  rw [branch, EStateM.run_bind, EStateM.run_get]
  dsimp only
  by_cases hjumps : machine.cpu.flags.jumps instruction.opcode = true
  · rw [if_pos hjumps, if_pos hjumps]
  · rw [if_neg hjumps, if_neg hjumps]
    rfl

theorem execute_of_strays (hchecked : instruction.Checked program)
    (hstrays : machine.Strays program instruction) :
    (execute .standard program instruction).run machine =
      .error (.fault (.invalidOperand instruction.opcode 1)) machine := by
  obtain ⟨hjumps, operand, value, honly, hvalue, houtside⟩ := hstrays
  obtain ⟨operand', value', honly', hvalue', htarget⟩ :=
    hchecked.target (isBranch_of_jumps hjumps)
  rw [honly] at honly'
  cases honly'
  rw [hvalue] at hvalue'
  cases hvalue'
  rw [if_neg houtside] at htarget
  have hread : (read fun _ => target program instruction).run machine =
      .error (.fault (.invalidOperand instruction.opcode 1)) machine :=
    run_read_of_error htarget
  unfold execute
  cases hopcode : instruction.opcode with
  | jmp | je | jnz | jg | jge | jl | jle | jc | jnc =>
      rw [run_branch, if_pos hjumps, EStateM.run_bind, hread, hopcode]
  | call => rw [call, EStateM.run_bind, hread, hopcode]
  | _ =>
      rw [hopcode] at hjumps
      cases hjumps

/-- A branch that is not taken looks at no operand. -/
theorem execute_of_not_jumps (calls : SystemCalls)
    (hbranch : instruction.opcode.isBranch = true)
    (hjumps : ¬machine.cpu.flags.jumps instruction.opcode = true) :
    (execute calls program instruction).run machine = .ok .next machine := by
  unfold execute
  cases hopcode : instruction.opcode with
  | jmp | je | jnz | jg | jge | jl | jle | jc | jnc => rw [run_branch, if_neg hjumps]
  | call =>
      rw [hopcode] at hjumps
      exact absurd rfl hjumps
  | _ =>
      rw [hopcode] at hbranch
      cases hbranch

theorem not_blamesOperand_of_not_strays (hchecked : instruction.Checked program)
    (hstrays : ¬machine.Strays program instruction)
    (herror : (execute .standard program instruction).run machine = .error failure machine') :
    ¬failure.BlamesOperand := by
  by_cases hbranch : instruction.opcode.isBranch = true
  · obtain ⟨operand, value, honly, hvalue, htarget⟩ := hchecked.target hbranch
    -- where the value is no number the branch was not taken, or it would stray
    by_cases hinside : 0 ≤ value ∧ value ≤ 65535
    · rw [if_pos hinside] at htarget
      exact execute_avoids hchecked (fun _ => ⟨_, htarget⟩) machine failure machine' herror
    · have hstays : ¬machine.cpu.flags.jumps instruction.opcode = true := fun hjumps =>
        hstrays ⟨hjumps, operand, value, honly, hvalue, hinside⟩
      rw [execute_of_not_jumps .standard hbranch hstays] at herror
      cases herror
  · have htarget : instruction.opcode.isBranch = true →
        ∃ number, target program instruction = .ok number :=
      fun h => absurd h hbranch
    exact execute_avoids hchecked htarget machine failure machine' herror

end Machine

/-- An instruction whose operands fit its signature and name only symbols of the program never
meets an undefined name, whatever the machine.  It blames an operand exactly where it branches
to a value that is no instruction number: then the first one, and the machine is left alone. -/
theorem checked_blames_only_strays
    (program : Program) (instruction : Instruction) (machine : Machine)
    (hcheck : instruction.opcode.check instruction.operands = .ok ())
    (hdefined : ∀ operand ∈ instruction.operands, ∀ name,
      operand.labelName? = some name → (program.symbols.value? name).isSome = true)
    (hinstruction :
      program.instructionAt? machine.cpu.instructionPointer = some instruction) :
    let step := Machine.step .standard program
    (∀ name machine', step.run machine ≠ .error (.fault (.undefinedSymbol name)) machine') ∧
      ∀ opcode position machine',
        step.run machine = .error (.fault (.invalidOperand opcode position)) machine' ↔
          machine.cpu.halted = false ∧ machine.Strays program instruction ∧
            opcode = instruction.opcode ∧ position = 1 ∧ machine' = machine := by
  intro step
  have hchecked : instruction.Checked program := ⟨hcheck, hdefined⟩
  by_cases hhalted : machine.cpu.halted = true
  · have hidle : step.run machine = .ok () machine := Machine.step_of_halted hhalted
    rw [hidle]
    refine ⟨nofun, fun opcode position machine' => ⟨nofun, ?_⟩⟩
    rintro ⟨hrunning, -⟩
    rw [hhalted] at hrunning
    cases hrunning
  · have hrunning : machine.cpu.halted = false := Bool.eq_false_iff.mpr hhalted
    have hexecutes : ∀ failure machine', step.run machine = .error failure machine' ↔
        (Machine.execute .standard program instruction).run machine = .error failure machine' :=
      fun failure machine' => Machine.step_eq_error_iff hrunning hinstruction
    simp only [ne_eq, hexecutes, hrunning, true_and]
    by_cases hstrays : machine.Strays program instruction
    · rw [Machine.execute_of_strays hchecked hstrays]
      refine ⟨nofun, fun opcode position machine' => ?_⟩
      constructor
      · intro herror
        cases herror
        exact ⟨hstrays, rfl, rfl, rfl⟩
      · rintro ⟨-, rfl, rfl, rfl⟩
        rfl
    · have hblameless : ∀ failure machine',
          (Machine.execute .standard program instruction).run machine = .error failure machine' →
            ¬failure.BlamesOperand :=
        fun _ _ => Machine.not_blamesOperand_of_not_strays hchecked hstrays
      refine ⟨fun name machine' herror => hblameless _ _ herror trivial, ?_⟩
      intro opcode position machine'
      exact ⟨fun herror => absurd trivial (hblameless _ _ herror), fun h => absurd h.1 hstrays⟩

/-- A call of a constant that is no instruction number. -/
def Program.farCall : Program where
  instructions :=
    #[{ opcode := .call, operands := [.label "far".toList],
        line := 2, column := 1, source := "CALL far".toList, address := 0 }]
  symbols := ⟨[{ name := "far".toList, value := -1, kind := .constant, line := 1 }]⟩
  data := #[]
  textStart := 0
  dataStart := 0

theorem checked_blames_only_strays_farCall :
    let machine := Machine.ofProgram .farCall
    let step := Machine.step .standard .farCall
    step.run machine = .error (.fault (.invalidOperand .call 1)) machine := by
  intro machine step
  have hdefined : ∀ operand ∈ [Operand.label "far".toList], ∀ name,
      operand.labelName? = some name →
        (Program.farCall.symbols.value? name).isSome = true := by
    intro operand hoperand name hname
    obtain rfl := List.mem_singleton.mp hoperand
    cases hname
    decide
  let call := Program.farCall.instructions[0]
  have hblames := checked_blames_only_strays .farCall call machine rfl hdefined rfl
  have hstrays : machine.Strays .farCall call := ⟨rfl, _, -1, rfl, rfl, by decide⟩
  exact (hblames.2 .call 1 machine).mpr ⟨rfl, hstrays, rfl, rfl, rfl⟩

end WordMachine
