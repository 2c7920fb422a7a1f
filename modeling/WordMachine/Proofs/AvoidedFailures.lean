import WordMachine.Proofs.FailingSteps
import WordMachine.Proofs.StackSteps

/-!
# Failures that do not occur

Work that avoids a kind of failure may go on with more work that avoids it.  So
an action of the machine avoids every kind that its lookups avoid, beside the
failures of its own: a place in memory, a division by zero, a refusal of the
host.  A lookup that fails has an operand to blame.
-/

namespace WordMachine

/-- The failure is about an operand, or about a name in one. -/
def Failure.BlamesOperand : Failure → Prop
  | .fault (.undefinedSymbol _) | .fault (.invalidOperand _ _) => True
  | _ => False

/-! ## Work that never fails in one way -/

namespace Execution

variable {σ α β : Type} {kind : Failure → Prop}

/-- Where the work fails, it is not with a failure of this kind. -/
def Avoids (kind : Failure → Prop) (work : EStateM Failure σ α) : Prop :=
  ∀ state failure state', work.run state = .error failure state' → ¬kind failure

theorem Avoids.bind
    {work : EStateM Failure σ α} {rest : α → EStateM Failure σ β}
    (hwork : Avoids kind work) (hrest : ∀ value, Avoids kind (rest value)) :
    Avoids kind (work >>= rest) := by
  intro state failure state' herror
  rcases error_of_run_bind herror with hfirst | ⟨value, between, -, hlater⟩
  · exact hwork state failure state' hfirst
  · exact hrest value between failure state' hlater

theorem NeverFails.avoids
    {work : EStateM Failure σ α} (hnever : NeverFails work) :
    Avoids kind work := by
  intro state failure state' herror
  obtain ⟨value, after, hok⟩ := hnever state
  rw [hok] at herror
  cases herror

theorem avoids_throw {failure : Failure} (hkind : ¬kind failure) :
    Avoids kind (throw failure : EStateM Failure σ α) := by
  intro state failure' state' herror
  cases herror
  exact hkind

theorem avoids_liftExcept {result : Except Failure α}
    (hresult : ∀ failure, result = .error failure → ¬kind failure) :
    Avoids kind (liftExcept result : EStateM Failure σ α) := by
  cases result with
  | ok value => exact (neverFails_pure value).avoids
  | error failure => exact avoids_throw (hresult failure rfl)

theorem avoids_read {look : Machine → Except Failure α}
    (hlook : ∀ machine failure, look machine = .error failure → ¬kind failure) :
    Avoids kind (read look) :=
  neverFails_get.avoids.bind fun machine => avoids_liftExcept (hlook machine)

/-- Looking for something that every machine has. -/
theorem avoids_read_of_ok {look : Machine → Except Failure α}
    (hlook : ∀ machine, ∃ value, look machine = .ok value) :
    Avoids kind (read look) := by
  apply avoids_read
  intro machine failure herror
  obtain ⟨value, hok⟩ := hlook machine
  rw [hok] at herror
  cases herror

theorem Avoids.onMemory
    {work : EStateM Failure Memory α} (havoids : Avoids kind work) :
    Avoids kind (onMemory work) := by
  intro machine failure machine' herror
  obtain ⟨memory, hrun, -⟩ := error_of_run_onMemory herror
  exact havoids machine.memory failure memory hrun

theorem Avoids.onHostView
    {work : Memory → EStateM Failure HostView α}
    (havoids : ∀ memory, Avoids kind (work memory)) :
    Avoids kind (onHostView work) := by
  intro machine failure machine' herror
  obtain ⟨view, hrun, -⟩ := error_of_run_onHostView herror
  exact havoids machine.memory _ failure view hrun

end Execution

open Execution

/-! ## Actions that never fail in one way -/

/-- The failure is about a place in memory. -/
def Failure.BlamesAddress : Failure → Prop
  | .fault (.addressOutOfBounds _) | .breakdown _ => True
  | _ => False

theorem Failure.BlamesAddress.not_blamesOperand {failure : Failure}
    (haddress : failure.BlamesAddress) : ¬failure.BlamesOperand := by
  cases failure with
  | breakdown => exact id
  | fault fault =>
      cases fault with
      | addressOutOfBounds => exact id
      | _ => exact haddress.elim

theorem Memory.blamesAddress_of_place {address : Int} {failure : Failure}
    (hplace : Memory.place address = .error failure) : failure.BlamesAddress := by
  unfold Memory.place at hplace
  split at hplace
  · cases hplace
    trivial
  · split at hplace
    · cases hplace
      trivial
    · cases hplace

theorem Memory.blamesAddress_of_readWord {memory : Memory} {address : Int} {failure : Failure}
    (hread : memory.readWord address = .error failure) : failure.BlamesAddress := by
  rw [Memory.readWord] at hread
  cases hplace : Memory.place address with
  | ok start =>
      rw [hplace] at hread
      cases hread
  | error failure' =>
      rw [hplace] at hread
      cases hread
      exact Memory.blamesAddress_of_place hplace

section Actions

variable {kind : Failure → Prop} {program : Program} {instruction : Instruction}

theorem Memory.writeWord_avoids
    (hkind : ∀ failure : Failure, failure.BlamesAddress → ¬kind failure)
    (address : Int) (value : Word) : Avoids kind (Memory.writeWord address value) := by
  refine Avoids.bind ?_ fun _ => (neverFails_modify _).avoids
  exact avoids_liftExcept fun failure hplace => hkind failure (Memory.blamesAddress_of_place hplace)

namespace Machine

theorem write_avoids (hregister : Avoids kind (read fun _ => instruction.registerAt 0))
    (outcome : Outcome) : Avoids kind (write instruction outcome) :=
  hregister.bind fun _ => (neverFails_modifyCpu _).avoids

theorem registerValue_avoids (hregister : Avoids kind (read fun _ => instruction.registerAt 0)) :
    Avoids kind (read (registerValue instruction 0)) := by
  refine avoids_read fun machine failure herror => ?_
  cases hlook : instruction.registerAt 0 with
  | ok register =>
      rw [registerValue, hlook] at herror
      cases herror
  | error refusal =>
      rw [registerValue, hlook] at herror
      cases herror
      exact hregister machine failure machine (run_read_of_error hlook)

theorem compute_avoids {operation : Word → Word → Except Fault Outcome}
    (hregister : Avoids kind (read fun _ => instruction.registerAt 0))
    (hvalue : Avoids kind (read (value program instruction 1)))
    (hoperation : ∀ a b fault, operation a b = .error fault → ¬kind (.fault fault)) :
    Avoids kind (compute program instruction operation) := by
  refine (registerValue_avoids hregister).bind fun a => hvalue.bind fun b => avoids_liftExcept ?_
  intro failure herror
  cases hresult : operation a b with
  | ok outcome =>
      rw [hresult] at herror
      cases herror
  | error fault =>
      rw [hresult] at herror
      cases herror
      exact hoperation a b fault hresult

theorem binary_avoids {operation : Word → Word → Except Fault Outcome}
    (hregister : Avoids kind (read fun _ => instruction.registerAt 0))
    (hvalue : Avoids kind (read (value program instruction 1)))
    (hoperation : ∀ a b fault, operation a b = .error fault → ¬kind (.fault fault)) :
    Avoids kind (binary program instruction operation) :=
  (compute_avoids hregister hvalue hoperation).bind fun outcome => write_avoids hregister outcome

theorem unary_avoids (hregister : Avoids kind (read fun _ => instruction.registerAt 0))
    (operation : Word → Outcome) : Avoids kind (unary instruction operation) :=
  (registerValue_avoids hregister).bind fun _ => write_avoids hregister _

theorem load_avoids (hregister : Avoids kind (read fun _ => instruction.registerAt 0))
    (haddress : Avoids kind (read (address program instruction 1)))
    (hkind : ∀ failure : Failure, failure.BlamesAddress → ¬kind failure) :
    Avoids kind (load program instruction) := by
  refine haddress.bind fun start => Avoids.bind ?_ fun _ => write_avoids hregister _
  exact avoids_read fun machine failure hread =>
    hkind failure (Memory.blamesAddress_of_readWord hread)

theorem store_avoids (haddress : Avoids kind (read (address program instruction 0)))
    (hvalue : Avoids kind (read (value program instruction 1)))
    (hkind : ∀ failure : Failure, failure.BlamesAddress → ¬kind failure) :
    Avoids kind (store program instruction) :=
  haddress.bind fun start => hvalue.bind fun word =>
    (Memory.writeWord_avoids hkind start word).onMemory

theorem branch_avoids (htarget : Avoids kind (read fun _ => target program instruction)) :
    Avoids kind (branch program instruction) := by
  refine neverFails_get.avoids.bind fun machine => ?_
  split
  · exact htarget.bind fun _ => (neverFails_pure _).avoids
  · exact (neverFails_pure _).avoids

theorem systemCall_avoids {calls : SystemCalls} (number : Word)
    (hcalls : ∀ memory, Avoids kind (calls number memory)) :
    Avoids kind (systemCall calls number) :=
  (Avoids.onHostView hcalls).bind fun _ =>
    neverFails_get.avoids.bind fun _ => (neverFails_pure _).avoids

theorem thenNext_avoids {work : Execution Unit} (hwork : Avoids kind work) :
    Avoids kind (thenNext work) :=
  hwork.bind fun _ => (neverFails_pure _).avoids

end Machine

theorem Arithmetic.fault_of_guarded {divisor : Word} {outcome : Outcome} {fault : Fault}
    (hguarded : (if divisor = 0 then .error .divisionByZero else .ok outcome) =
      Except.error fault) : fault = .divisionByZero := by
  split at hguarded
  · cases hguarded
    rfl
  · cases hguarded

end Actions

/-! ## Looking operands up -/

/-- Where the lookup fails, an operand is to blame. -/
def FailsAtOperand {α : Type} (result : Except Failure α) : Prop :=
  ∀ failure, result = .error failure → failure.BlamesOperand

section Lookups

variable {α β : Type} {program : Program} {instruction : Instruction} {position : Nat}
  {machine : Machine}

theorem failsAtOperand_ok (value : α) : FailsAtOperand (.ok value) := nofun

theorem failsAtOperand_invalid : FailsAtOperand (instruction.invalid position : Except _ α) := by
  intro failure herror
  cases herror
  trivial

theorem FailsAtOperand.bind {result : Except Failure α} {rest : α → Except Failure β}
    (hresult : FailsAtOperand result) (hrest : ∀ value, FailsAtOperand (rest value)) :
    FailsAtOperand (result >>= rest) := by
  cases result with
  | ok value => exact hrest value
  | error refusal =>
      intro failure herror
      cases herror
      exact hresult refusal rfl

theorem FailsAtOperand.map {result : Except Failure α} (hresult : FailsAtOperand result)
    (f : α → β) : FailsAtOperand (f <$> result) := by
  cases result with
  | ok value => exact nofun
  | error refusal =>
      intro failure herror
      cases herror
      exact hresult refusal rfl

theorem failsAtOperand_operandAt : FailsAtOperand (instruction.operandAt position) := by
  unfold Instruction.operandAt
  split
  · exact failsAtOperand_ok _
  · exact failsAtOperand_invalid

theorem failsAtOperand_valueOf (name : Text) : FailsAtOperand (program.valueOf name) := by
  unfold Program.valueOf
  split
  · exact failsAtOperand_ok _
  · intro failure herror
    cases herror
    trivial

theorem failsAtOperand_registerAt : FailsAtOperand (instruction.registerAt position) := by
  refine failsAtOperand_operandAt.bind fun operand => ?_
  cases operand with
  | register register => exact failsAtOperand_ok register
  | immediate | memory | label => exact failsAtOperand_invalid

theorem failsAtOperand_value :
    FailsAtOperand (Machine.value program instruction position machine) := by
  refine failsAtOperand_operandAt.bind fun operand => ?_
  cases operand with
  | register | immediate => exact failsAtOperand_ok _
  | memory => exact failsAtOperand_invalid
  | label name => exact (failsAtOperand_valueOf name).map _

theorem failsAtOperand_address :
    FailsAtOperand (Machine.address program instruction position machine) := by
  refine failsAtOperand_operandAt.bind fun operand => ?_
  cases operand with
  | memory address =>
      cases address with
      | absolute | indirect => exact failsAtOperand_ok _
      | label name => exact failsAtOperand_valueOf name
  | register | immediate | label => exact failsAtOperand_invalid

theorem failsAtOperand_target : FailsAtOperand (Machine.target program instruction) := by
  have hrange : ∀ number : Int, FailsAtOperand
      (if 0 ≤ number ∧ number ≤ 65535 then .ok (BitVec.ofInt 16 number)
        else instruction.invalid 0 : Except Failure Word) := by
    intro number
    split
    · exact failsAtOperand_ok _
    · exact failsAtOperand_invalid
  refine failsAtOperand_operandAt.bind fun operand => ?_
  cases operand with
  | immediate number => exact hrange number
  | label name => exact (failsAtOperand_valueOf name).bind hrange
  | register | memory => exact FailsAtOperand.bind failsAtOperand_invalid hrange

end Lookups

end WordMachine
