import WordMachine.Proofs.InstructionEffects

/-!
# What an instruction leaves alone

A step changes only what its instruction is there to change: a store, a push and
a call one word of memory; the destination and the stack pointer among the
registers; the flags where there is a result; and where execution goes on.
-/

namespace WordMachine

/-- The two bytes from an address on hold a word, low byte first. -/
def Memory.HoldsWord (memory : Memory) (start : Nat) (word : Word) : Prop :=
  (memory.byte start).toNat = word.toNat % 256 ∧ (memory.byte (start + 1)).toNat = word.toNat / 256

theorem Memory.holdsWord_setWord (memory : Memory) {start : Nat} (word : Word)
    (hinside : start + 2 ≤ size) : (memory.setWord start word).HoldsWord start word := by
  have hbyte := memory.byte_setWord word hinside
  have hword : word.toNat < 65536 := word.isLt
  constructor
  · rw [hbyte, if_neg (by omega), if_pos rfl]
    simp [UInt8.toNat, BitVec.extractLsb'_toNat]
  · rw [hbyte, if_pos rfl]
    simp [UInt8.toNat, BitVec.extractLsb'_toNat, Nat.shiftRight_eq_div_pow]
    omega

namespace Machine

variable {program : Program} {instruction : Instruction} {machine after : Machine} {flow : Flow}

/-- The instruction writes a word to memory, from an address on. -/
def WritesWord (program : Program) (instruction : Instruction) (machine : Machine)
    (start : Int) (word : Word) : Prop :=
  match instruction.opcode with
  | .store =>
      address program instruction 0 machine = .ok start ∧
        value program instruction 1 machine = .ok word
  | .push =>
      start = (machine.cpu.stackPointer - 2).toNat ∧
        value program instruction 0 machine = .ok word
  | .call =>
      start = (machine.cpu.stackPointer - 2).toNat ∧
        word = machine.cpu.instructionPointer + 1
  | _ => False

/-- The instruction returns, or calls, or jumps as the flags say. -/
def Jumps (instruction : Instruction) (machine : Machine) : Prop :=
  instruction.opcode = .ret ∨ machine.cpu.flags.jumps instruction.opcode = true

/-- The instruction stops the machine by itself. -/
def Quits (program : Program) (instruction : Instruction) (machine : Machine) : Prop :=
  instruction.opcode = .hlt ∨
    instruction.opcode = .sys ∧ value program instruction 0 machine = .ok 0

/-- The machine stops, by its instruction or because there is no number after the last. -/
def Stops (program : Program) (instruction : Instruction) (machine : Machine) : Prop :=
  Quits program instruction machine ∨
    machine.cpu.instructionPointer = 65535 ∧ ¬Jumps instruction machine

/-- A machine has changed only as an instruction is there to change it. -/
structure ChangedBy (program : Program) (instruction : Instruction) (machine after : Machine) :
    Prop where
  memory_of_writesMemory : instruction.opcode.writesMemory = true →
    ∃ start word,
      WritesWord program instruction machine start word ∧
        (0 ≤ start ∧ start + 2 ≤ Memory.size) ∧
          after.memory.HoldsWord start.toNat word ∧
            ∀ other : Nat, (other : Int) ≠ start → (other : Int) ≠ start + 1 →
              after.memory.byte other = machine.memory.byte other
  memory_of_not_writesMemory : instruction.opcode.writesMemory = false →
    after.memory = machine.memory
  /-- Only the destination and, where the stack is used, the stack pointer. -/
  register : ∀ register,
    instruction.destination? ≠ some register →
      (register = .stackPointer → instruction.opcode.usesStack = false) →
        after.cpu.get register = machine.cpu.get register
  stackPointer_of_push : instruction.opcode = .push →
    after.cpu.stackPointer = machine.cpu.stackPointer - 2
  stackPointer_of_call : instruction.opcode = .call →
    after.cpu.stackPointer = machine.cpu.stackPointer - 2
  stackPointer_of_ret : instruction.opcode = .ret →
    after.cpu.stackPointer = machine.cpu.stackPointer + 2
  /-- The popped word goes last, also where it goes to the stack pointer itself. -/
  registers_of_pop : instruction.opcode = .pop →
    ∃ destination,
      instruction.destination? = some destination ∧
        after.cpu.get destination = machine.top ∧
          (destination ≠ .stackPointer →
            after.cpu.stackPointer = machine.cpu.stackPointer + 2)
  flags_of_result : instruction.opcode.writesRegister = true →
    ∃ destination,
      instruction.destination? = some destination ∧
        after.cpu.flags.zero = (after.cpu.get destination == 0) ∧
          after.cpu.flags.negative = (after.cpu.get destination).msb
  flags_of_cmp : instruction.opcode = .cmp →
    ∃ a b,
      registerValue instruction 0 machine = .ok a ∧ value program instruction 1 machine = .ok b ∧
        after.cpu.flags.zero = (a - b == 0) ∧ after.cpu.flags.negative = (a - b).msb
  flags_cleared : instruction.opcode.clearsCarry = true →
    after.cpu.flags.carry = false ∧ after.cpu.flags.overflow = false
  flags_kept : instruction.opcode.writesRegister = false → instruction.opcode ≠ .cmp →
    after.cpu.flags = machine.cpu.flags
  halted_iff : after.cpu.halted = true ↔ Stops program instruction machine
  instructionPointer_of_ret : instruction.opcode = .ret →
    after.cpu.instructionPointer = machine.top
  instructionPointer_of_jump : machine.cpu.flags.jumps instruction.opcode = true →
    target program instruction = .ok after.cpu.instructionPointer
  instructionPointer_of_stop : Stops program instruction machine →
    after.cpu.instructionPointer = machine.cpu.instructionPointer
  instructionPointer_of_next : ¬Jumps instruction machine → ¬Stops program instruction machine →
    after.cpu.instructionPointer = machine.cpu.instructionPointer + 1

/-! ## Registers -/

theorem destination?_of_registerAt {destination : Register}
    (hwrites : instruction.opcode.writesRegister = true)
    (hregister : instruction.registerAt 0 = .ok destination) :
    instruction.destination? = some destination := by
  rw [Instruction.destination?, if_pos hwrites, Instruction.registerAt_eq_ok_iff.mp hregister]

theorem get_written (machine : Machine) (destination register : Register) (outcome : Outcome) :
    (machine.written destination outcome).cpu.get register =
      if register = destination then outcome.value else machine.cpu.get register := by
  rw [← Cpu.get_set]
  cases register with
  | general | stackPointer | basePointer => rfl

theorem get_of_stackPointer {register : Register} (hother : register ≠ .stackPointer) (cpu : Cpu)
    (stackPointer : Word) : { cpu with stackPointer }.get register = cpu.get register := by
  cases register with
  | general | basePointer => rfl
  | stackPointer => exact absurd rfl hother

theorem get_advance (flow : Flow) (cpu : Cpu) (register : Register) :
    (advance flow cpu).get register = cpu.get register := by
  cases flow with
  | next => exact get_advance_next cpu register
  | jump | stay =>
      cases register with
      | general | stackPointer | basePointer => rfl

theorem flags_advance (flow : Flow) (cpu : Cpu) : (advance flow cpu).flags = cpu.flags := by
  cases flow with
  | next =>
      simp only [advance]
      split
      · rfl
      · rfl
  | jump | stay => rfl

/-! ## What each effect changes -/

namespace Effect

variable (heffect : Effect program instruction machine flow after)
include heffect

-- in each lemma the effects that belong to other opcodes are ruled out by the opcode

theorem memory_of_writesMemory (hwrites : instruction.opcode.writesMemory = true) :
    ∃ start word,
      WritesWord program instruction machine start word ∧
        (0 ≤ start ∧ start + 2 ≤ Memory.size) ∧
          after.memory = machine.memory.setWord start.toNat word := by
  cases heffect with
  | stored opcode place source inside =>
      refine ⟨_, _, ?_, inside, rfl⟩
      rw [WritesWord, opcode]
      exact ⟨place, source⟩
  | pushed opcode source top =>
      refine ⟨(machine.cpu.stackPointer - 2).toNat, _, ?_, ⟨?_, ?_⟩, rfl⟩
      · rw [WritesWord, opcode]
        exact ⟨rfl, source⟩
      · omega
      · exact_mod_cast top.2
  | called opcode target top =>
      refine ⟨(machine.cpu.stackPointer - 2).toNat, _, ?_, ⟨?_, ?_⟩, rfl⟩
      · rw [WritesWord, opcode]
        exact ⟨rfl, rfl⟩
      · omega
      · exact_mod_cast top.2
  | wrote | jumped | passed =>
      simp_all [Opcode.writesMemory_of_writesRegister, Opcode.writesMemory_of_isJump]
  | _ => simp_all [Opcode.writesMemory]

theorem memory_of_not_writesMemory (hwrites : instruction.opcode.writesMemory = false) :
    after.memory = machine.memory := by
  cases heffect with
  | stored opcode | pushed opcode | called opcode =>
      rw [opcode] at hwrites
      cases hwrites
  | _ => rfl

theorem get_of_ne {register : Register} (hdestination : instruction.destination? ≠ some register)
    (hstack : register = .stackPointer → instruction.opcode.usesStack = false) :
    after.cpu.get register = machine.cpu.get register := by
  have hother : instruction.opcode.usesStack = true → register ≠ .stackPointer := by
    intro huses hpointer
    rw [hstack hpointer] at huses
    cases huses
  have hne : ∀ destination, instruction.opcode.writesRegister = true →
      instruction.registerAt 0 = .ok destination → register ≠ destination := by
    rintro destination hwrites hregister rfl
    exact hdestination (destination?_of_registerAt hwrites hregister)
  cases heffect with
  | wrote writes other found => rw [get_written, if_neg (hne _ writes found)]
  | popped opcode found =>
      rw [get_written, if_neg (hne _ (by rw [opcode]; rfl) found)]
      exact get_of_stackPointer (hother (by rw [opcode]; rfl)) _ _
  | pushed opcode | called opcode | returned opcode =>
      exact get_of_stackPointer (hother (by rw [opcode]; rfl)) _ _
  | _ =>
      cases register with
      | general | stackPointer | basePointer => rfl

theorem stackPointer_of_push (hopcode : instruction.opcode = .push) :
    after.cpu.stackPointer = machine.cpu.stackPointer - 2 := by
  cases heffect with
  | pushed => rfl
  | _ => simp_all [Opcode.writesRegister, Opcode.isJump]

theorem stackPointer_of_call (hopcode : instruction.opcode = .call) :
    after.cpu.stackPointer = machine.cpu.stackPointer - 2 := by
  cases heffect with
  | called => rfl
  | _ => simp_all [Opcode.writesRegister, Opcode.isJump]

theorem stackPointer_of_ret (hopcode : instruction.opcode = .ret) :
    after.cpu.stackPointer = machine.cpu.stackPointer + 2 := by
  cases heffect with
  | returned => rfl
  | _ => simp_all [Opcode.writesRegister, Opcode.isJump]

theorem registers_of_pop (hopcode : instruction.opcode = .pop) :
    ∃ destination,
      instruction.destination? = some destination ∧
        after.cpu.get destination = machine.top ∧
          (destination ≠ .stackPointer →
            after.cpu.stackPointer = machine.cpu.stackPointer + 2) := by
  cases heffect with
  | @popped destination _ found =>
      have hwrites : instruction.opcode.writesRegister = true := by
        rw [hopcode]
        rfl
      refine ⟨destination, destination?_of_registerAt hwrites found, ?_, fun hother => ?_⟩
      · rw [get_written, if_pos rfl]
      · have hget := get_written machine.popped destination .stackPointer { value := machine.top }
        rw [if_neg hother.symm] at hget
        exact hget
  | _ => simp_all [Opcode.isJump]

theorem flags_of_result (hwrites : instruction.opcode.writesRegister = true) :
    ∃ destination,
      instruction.destination? = some destination ∧
        after.cpu.flags.zero = (after.cpu.get destination == 0) ∧
          after.cpu.flags.negative = (after.cpu.get destination).msb := by
  cases heffect with
  | wrote writes other found =>
      refine ⟨_, destination?_of_registerAt writes found, ?_⟩
      rw [get_written, if_pos rfl]
      exact ⟨rfl, rfl⟩
  | popped opcode found =>
      refine ⟨_, destination?_of_registerAt hwrites found, ?_⟩
      rw [get_written, if_pos rfl]
      exact ⟨rfl, rfl⟩
  | jumped | passed => simp_all [Opcode.writesRegister_of_isJump]
  | _ => simp_all [Opcode.writesRegister]

theorem flags_of_cmp (hopcode : instruction.opcode = .cmp) :
    ∃ a b,
      registerValue instruction 0 machine = .ok a ∧ value program instruction 1 machine = .ok b ∧
        after.cpu.flags.zero = (a - b == 0) ∧ after.cpu.flags.negative = (a - b).msb := by
  cases heffect with
  | compared opcode left right => exact ⟨_, _, left, right, rfl, rfl⟩
  | _ => simp_all [Opcode.writesRegister, Opcode.isJump]

theorem flags_cleared (hclears : instruction.opcode.clearsCarry = true) :
    after.cpu.flags.carry = false ∧ after.cpu.flags.overflow = false := by
  cases heffect with
  | wrote writes other found clears => exact clears hclears
  | popped => exact ⟨rfl, rfl⟩
  | jumped | passed => simp_all [Opcode.clearsCarry_of_isJump]
  | _ => simp_all [Opcode.clearsCarry]

theorem flags_kept (hwrites : instruction.opcode.writesRegister = false)
    (hother : instruction.opcode ≠ .cmp) : after.cpu.flags = machine.cpu.flags := by
  cases heffect with
  | wrote writes =>
      rw [hwrites] at writes
      cases writes
  | popped opcode =>
      rw [opcode] at hwrites
      cases hwrites
  | compared opcode => exact absurd opcode hother
  | _ => rfl

theorem instructionPointer_eq :
    after.cpu.instructionPointer = machine.cpu.instructionPointer := by
  cases heffect with
  | @wrote destination | @popped destination =>
      cases destination with
      | general | stackPointer | basePointer => rfl
  | _ => rfl

theorem halted_eq (hflow : flow ≠ .stay) : after.cpu.halted = machine.cpu.halted := by
  cases heffect with
  | @wrote destination | @popped destination =>
      cases destination with
      | general | stackPointer | basePointer => rfl
  | stopped | halted => exact absurd rfl hflow
  | _ => rfl

omit heffect

theorem of_next (heffect : Effect program instruction machine .next after) :
    ¬Jumps instruction machine ∧ ¬Quits program instruction machine := by
  unfold Jumps Quits
  cases heffect with
  | wrote writes =>
      have hjumps := Opcode.jumps_of_writesRegister writes machine.cpu.flags
      refine ⟨?_, ?_⟩
      · rintro (hopcode | htaken)
        · simp_all [Opcode.writesRegister]
        · simp_all
      · rintro (hopcode | ⟨hopcode, -⟩)
        · simp_all [Opcode.writesRegister]
        · simp_all [Opcode.writesRegister]
  | passed jump passed =>
      refine ⟨?_, ?_⟩
      · rintro (hopcode | htaken)
        · simp_all [Opcode.isJump]
        · simp_all
      · rintro (hopcode | ⟨hopcode, -⟩)
        · simp_all [Opcode.isJump]
        · simp_all [Opcode.isJump]
  | _ => simp_all [Flags.jumps]

theorem of_jump {destination : Word}
    (heffect : Effect program instruction machine (.jump destination) after) :
    Jumps instruction machine ∧ ¬Quits program instruction machine ∧
      (instruction.opcode = .ret → destination = machine.top) ∧
        (machine.cpu.flags.jumps instruction.opcode = true →
          target program instruction = .ok destination) := by
  unfold Jumps Quits
  cases heffect with
  | jumped jump taken target =>
      refine ⟨.inr taken, ?_, fun hopcode => ?_, fun _ => target⟩
      · rintro (hopcode | ⟨hopcode, -⟩)
        · simp_all [Opcode.isJump]
        · simp_all [Opcode.isJump]
      · simp_all [Opcode.isJump]
  | _ => simp_all [Flags.jumps]

theorem of_stay (heffect : Effect program instruction machine .stay after) :
    ¬Jumps instruction machine ∧ Quits program instruction machine ∧
      after.cpu.halted = true := by
  unfold Jumps Quits
  cases heffect with
  | stopped | halted => simp_all [Flags.jumps, halt]

end Effect

/-! ## The frame of a step -/

namespace Effect

variable (hrunning : machine.cpu.halted = false)
  (heffect : Effect program instruction machine flow after)
include heffect

include hrunning in
theorem halted_advance :
    (advance flow after.cpu).halted = true ↔ Stops program instruction machine := by
  unfold Stops
  cases flow with
  | next =>
      obtain ⟨hjumps, hquits⟩ := heffect.of_next
      have hhalted := heffect.halted_eq (by rintro ⟨⟩)
      rw [advance, heffect.instructionPointer_eq]
      by_cases hlast : machine.cpu.instructionPointer = 65535
      · rw [if_pos hlast]
        exact ⟨fun _ => .inr ⟨hlast, hjumps⟩, fun _ => rfl⟩
      · have hgoes : ¬(Quits program instruction machine ∨
            machine.cpu.instructionPointer = 65535 ∧ ¬Jumps instruction machine) :=
          not_or.mpr ⟨hquits, fun hend => hlast hend.1⟩
        rw [if_neg hlast, hhalted, hrunning]
        exact iff_of_false Bool.false_ne_true hgoes
  | jump destination =>
      obtain ⟨hjumps, hquits, -⟩ := heffect.of_jump
      have hhalted := heffect.halted_eq (by rintro ⟨⟩)
      have hgoes : ¬(Quits program instruction machine ∨
          machine.cpu.instructionPointer = 65535 ∧ ¬Jumps instruction machine) :=
        not_or.mpr ⟨hquits, fun hend => hend.2 hjumps⟩
      rw [advance, hhalted, hrunning]
      exact iff_of_false Bool.false_ne_true hgoes
  | stay =>
      obtain ⟨-, hquits, hhalted⟩ := heffect.of_stay
      exact ⟨fun _ => .inl hquits, fun _ => hhalted⟩

theorem eq_jump_of_jumps (hjumps : Jumps instruction machine) :
    ∃ destination,
      flow = .jump destination ∧
        (instruction.opcode = .ret → destination = machine.top) ∧
          (machine.cpu.flags.jumps instruction.opcode = true →
            target program instruction = .ok destination) := by
  cases flow with
  | next => exact absurd hjumps heffect.of_next.1
  | jump destination => exact ⟨destination, rfl, heffect.of_jump.2.2⟩
  | stay => exact absurd hjumps heffect.of_stay.1

theorem instructionPointer_of_stop (hstops : Stops program instruction machine) :
    (advance flow after.cpu).instructionPointer = machine.cpu.instructionPointer := by
  have hpointer := heffect.instructionPointer_eq
  cases flow with
  | next =>
      have hlast : machine.cpu.instructionPointer = 65535 :=
        (hstops.resolve_left heffect.of_next.2).1
      rw [advance, hpointer, if_pos hlast]
  | jump destination =>
      obtain ⟨hjumps, hquits, -⟩ := heffect.of_jump
      exact absurd hjumps (hstops.resolve_left hquits).2
  | stay => exact hpointer

theorem instructionPointer_of_next (hjumps : ¬Jumps instruction machine)
    (hstops : ¬Stops program instruction machine) :
    (advance flow after.cpu).instructionPointer = machine.cpu.instructionPointer + 1 := by
  have hpointer := heffect.instructionPointer_eq
  cases flow with
  | next =>
      have hlast : ¬machine.cpu.instructionPointer = 65535 :=
        fun hlast => hstops (.inr ⟨hlast, hjumps⟩)
      rw [advance, hpointer, if_neg hlast]
  | jump destination => exact absurd heffect.of_jump.1 hjumps
  | stay => exact absurd (.inl heffect.of_stay.2.1) hstops

include hrunning in
/-- Moving the pointer behind an effect changes nothing but where execution goes on. -/
theorem changedBy :
    ChangedBy program instruction machine { after with cpu := advance flow after.cpu } where
  memory_of_writesMemory hwrites := by
    obtain ⟨start, word, hword, hinside, hmemory⟩ := heffect.memory_of_writesMemory hwrites
    have hsize : start.toNat + 2 ≤ Memory.size := by omega
    refine ⟨start, word, hword, hinside, ?_, fun other hlow hhigh => ?_⟩
    · rw [hmemory]
      exact machine.memory.holdsWord_setWord word hsize
    · rw [hmemory, machine.memory.byte_setWord word hsize, if_neg (by omega), if_neg (by omega)]
  memory_of_not_writesMemory := heffect.memory_of_not_writesMemory
  register register hdestination hstack := by
    rw [get_advance]
    exact heffect.get_of_ne hdestination hstack
  stackPointer_of_push hopcode := by
    rw [stackPointer_advance]
    exact heffect.stackPointer_of_push hopcode
  stackPointer_of_call hopcode := by
    rw [stackPointer_advance]
    exact heffect.stackPointer_of_call hopcode
  stackPointer_of_ret hopcode := by
    rw [stackPointer_advance]
    exact heffect.stackPointer_of_ret hopcode
  registers_of_pop hopcode := by
    rw [stackPointer_advance]
    simp only [get_advance]
    exact heffect.registers_of_pop hopcode
  flags_of_result hwrites := by
    rw [flags_advance]
    simp only [get_advance]
    exact heffect.flags_of_result hwrites
  flags_of_cmp hopcode := by
    rw [flags_advance]
    exact heffect.flags_of_cmp hopcode
  flags_cleared hclears := by
    rw [flags_advance]
    exact heffect.flags_cleared hclears
  flags_kept hwrites hother := by
    rw [flags_advance]
    exact heffect.flags_kept hwrites hother
  halted_iff := heffect.halted_advance hrunning
  instructionPointer_of_ret hopcode := by
    obtain ⟨destination, rfl, hreturn, -⟩ := heffect.eq_jump_of_jumps (.inl hopcode)
    exact hreturn hopcode
  instructionPointer_of_jump htaken := by
    obtain ⟨destination, rfl, -, htarget⟩ := heffect.eq_jump_of_jumps (.inr htaken)
    exact htarget htaken
  instructionPointer_of_stop := heffect.instructionPointer_of_stop
  instructionPointer_of_next := heffect.instructionPointer_of_next

end Effect

end Machine

/-- A step of a running machine changes only what its instruction is there to change. -/
theorem step_changes_only (program : Program) (instruction : Instruction)
    (machine after : Machine) (hrunning : machine.cpu.halted = false)
    (hinstruction :
      program.instructionAt? machine.cpu.instructionPointer = some instruction)
    (hstep : (Machine.step .standard program).run machine = .ok () after) :
    Machine.ChangedBy program instruction machine after := by
  rw [Machine.step_of_instruction hrunning hinstruction] at hstep
  cases hexecute : (Machine.execute .standard program instruction).run machine with
  | error failure executed =>
      rw [hexecute] at hstep
      cases hstep
  | ok flow executed =>
      rw [hexecute] at hstep
      cases hstep
      exact (Machine.effect_of_execute hrunning hexecute).changedBy hrunning

/-- Take a word off the stack into the stack pointer. -/
def Program.unwinding : Program where
  instructions :=
    #[{ opcode := .pop, operands := [.register .stackPointer],
        line := 1, column := 1, source := "POP SP".toList, address := 0 }]
  symbols := {}
  data := #[]
  textStart := 0
  dataStart := 0

/-- The popped word is what is left in the stack pointer, and not the place above it. -/
theorem step_changes_only_unwinding :
    let machine : Machine :=
      { cpu := { stackPointer := 65532 }, memory := Memory.zero.setWord 65532 258 }
    let after : Machine :=
      { machine with cpu := { stackPointer := 258, instructionPointer := 1 } }
    (Machine.step .standard .unwinding).run machine = .ok () after ∧
      after.cpu.stackPointer = machine.top ∧ after.memory = machine.memory := by
  intro machine after
  have hinstruction : Program.unwinding.instructionAt? machine.cpu.instructionPointer =
      some Program.unwinding.instructions[0] := by rfl
  have hregister : Program.unwinding.instructions[0].registerAt 0 = .ok .stackPointer := rfl
  have hfull : machine.HasTop := ⟨by decide, by decide⟩
  have hword : machine.top = 258 := by decide +kernel
  have hstep : (Machine.step .standard .unwinding).run machine = .ok () after := by
    rw [Machine.step_of_instruction rfl hinstruction,
      Machine.run_execute_pop _ _ _ rfl hregister,
      Machine.run_pop_of_hasTop hfull]
    dsimp only
    rw [hword]
    rfl
  have hchanged := step_changes_only .unwinding _ machine after rfl hinstruction hstep
  obtain ⟨destination, hdestination, htop, -⟩ := hchanged.registers_of_pop rfl
  cases hdestination
  exact ⟨hstep, htop, hchanged.memory_of_not_writesMemory rfl⟩

end WordMachine
