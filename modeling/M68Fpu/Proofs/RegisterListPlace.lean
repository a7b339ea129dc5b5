import M68Fpu.Bus.Flat
import M68Fpu.Proofs.InstructionSet

/-!
# The place of a register list

Register lists are moved through stacks: pushed below an address register that moves down, popped
from one that moves up. Whether the address field of the opcode names the stack of the direction
(`OnStack`) is found out each time that a register is moved. A list of at least one register is
therefore rejected everywhere else, and nothing has changed by then (`Machine.RejectsPlace`). A list
of none is moved wherever the address field says, which is nowhere: the step goes on behind the
command word, extension words or not (`Machine.PassesOver`).

So the place is checked exactly for the lists that are not empty, and for the empty one if there is
nothing to be found (`Machine.checksPlace_iff`).
-/

namespace M68Fpu

/-! ## Encodings -/

namespace Direction

/-- The class of the command words that move a register list. -/
def listClass : Direction → Nat
  | read => 6
  | write => 7

/-- The mode of a list that is given in the command word, in the order of its stack. -/
def listMode : Direction → Nat
  | read => 2
  | write => 0

/-- The mode of the address field that names a stack. -/
def stackMode : Direction → Nat
  | read => 3
  | write => 4

end Direction

/-- Whether an opcode and a command word move the register list in the low byte of the command word,
wherever the address field says. -/
structure MovesList (direction : Direction) (opcode second : UInt16) : Prop where
  group_eq : bitField opcode 8 8 = 0xF2
  operation_eq : bitField opcode 6 2 = 0
  class_eq : bitField second 13 3 = direction.listClass
  mode_eq : bitField second 11 2 = direction.listMode

/-- Whether the address field names a stack. -/
def OnStack (direction : Direction) (opcode : UInt16) : Prop :=
  bitField opcode 3 3 = direction.stackMode

instance (direction : Direction) (opcode : UInt16) : Decidable (OnStack direction opcode) :=
  inferInstanceAs (Decidable (_ = _))

/-- A location for extended slots is a stack. -/
theorem filter_supports_eq_none {direction : Direction} {opcode : UInt16}
    (h : ¬ OnStack direction opcode) :
    (EffectiveAddress.decode (addressField opcode)).filter
      (Access.supports ⟨.extended, direction⟩) = none := by
  have hrejected : Access.rejection ⟨.extended, direction⟩ opcode 0 ≠ none := by
    rw [Ne, Access.rejection_extended_eq_none_iff]
    cases direction <;> exact fun hmode => h (congrArg Fin.val hmode)
  cases hplace : EffectiveAddress.decode (addressField opcode) with
  | none => rfl
  | some place =>
    rw [Ne, Access.rejection_of_decode 0 hplace] at hrejected
    rw [Option.filter_some, if_neg]
    intro hsupports
    -- Of the locations with an extension word to be wrong, none is a stack.
    refine hrejected ⟨hsupports, ?_⟩
    rintro ⟨n, rfl⟩
    cases direction <;> cases hsupports

theorem MovesList.decode_eq {direction : Direction} {opcode second : UInt16}
    (h : MovesList direction opcode second) :
    Command.decode second = some (.moveMultiple (direction == .write)
      (UInt8.ofNat direction.listMode) (byteField second 0 8)) := by
  have hmode : byteField second 11 2 = UInt8.ofNat direction.listMode :=
    congrArg UInt8.ofNat h.mode_eq
  rw [← hmode]
  unfold Command.decode
  cases direction with
  | read => rw [show octalField second 13 = 6 from Fin.ext h.class_eq]; rfl
  | write => rw [show octalField second 13 = 7 from Fin.ext h.class_eq]; rfl

/-! ## Fetches -/

namespace Fetch

variable {β : Type} [Bus β] {bus : β} {stream : InstructionStream} {direction : Direction}

theorem location_of_filter_eq_none {access : Access}
    (h : (EffectiveAddress.decode (addressField stream.ir)).filter access.supports = none) :
    location access bus stream =
      .error (.decode (unsupported access stream.ir) stream.start) stream := by
  unfold location
  rw [bind_apply]
  show (require _ _ >>= locate access : Fetch β Location) bus stream = _
  rw [bind_apply, require_of_none h]

/-- The place is looked at as soon as there is a register to be moved. -/
theorem stack_of_not_onStack {registers : List (Fin 8)} (hregisters : registers ≠ [])
    (h : ¬ OnStack direction stream.ir) :
    stack direction registers bus stream =
      .error (.decode (unsupported ⟨.extended, direction⟩ stream.ir) stream.start) stream := by
  cases registers with
  | nil => exact absurd rfl hregisters
  | cons n rest =>
    show (discard (location ⟨.extended, direction⟩) >>= _ : Fetch β (Fin 8)) bus stream = _
    rw [bind_apply, discard_apply, location_of_filter_eq_none (filter_supports_eq_none h)]

theorem moveMultiple_of_not_onStack {list : UInt8} (hlist : list ≠ 0)
    (h : ¬ OnStack direction stream.ir) :
    moveMultiple (direction == .write) (UInt8.ofNat direction.listMode) list bus stream =
      .error (.decode (unsupported ⟨.extended, direction⟩ stream.ir) stream.start) stream := by
  have hlisted : listedBits list ≠ [] := listedBits_ne_nil hlist
  cases direction with
  | read =>
    have hloaded : loadedRegisters list ≠ [] := fun hnil => hlisted (List.map_eq_nil_iff.mp hnil)
    show (stack .read (loadedRegisters list) >>= _ : Fetch β Instruction) bus stream = _
    rw [bind_apply, stack_of_not_onStack hloaded h]
  | write =>
    have hstored : storedRegisters list ≠ [] := hlisted
    show (stack .write (storedRegisters list) >>= _ : Fetch β Instruction) bus stream = _
    rw [bind_apply, stack_of_not_onStack hstored h]

/-- A list of no registers goes with every place, and there is nothing to be done. -/
theorem moveMultiple_zero (direction : Direction) (bus : β) (stream : InstructionStream) :
    ∃ instruction, moveMultiple (direction == .write) (UInt8.ofNat direction.listMode) 0 bus stream
        = .ok instruction stream ∧
      Exec.execute instruction = (pure () : Exec β Unit) := by
  cases direction with
  | read => exact ⟨.loadMultiple _ [], rfl, rfl⟩
  | write => exact ⟨.storeMultiple _ [], rfl, rfl⟩

end Fetch

/-! ## Steps -/

namespace Machine

variable {β : Type} [Bus β] {machine : Machine β} {direction : Direction} {opcode second : UInt16}

/-- A step that is rejected for the place of its operand, and has moved nothing but the program
counter. -/
structure RejectsPlace (machine : Machine β) (direction : Direction) (opcode : UInt16) : Prop where
  fault_eq : machine.step.fault = some (.decode (.addressingMode ⟨.extended, direction⟩
    (byteField opcode 3 3) (byteField opcode 0 3)) machine.cpu.pc)
  bus_eq : machine.step.machine.bus = machine.bus
  cpu_eq : machine.step.machine.cpu =
    { machine.cpu with pc := machine.cpu.pc + 4, ir := opcode, stopped := true }

/-- A step that completes and has moved nothing but the program counter. -/
structure PassesOver (machine : Machine β) (opcode : UInt16) : Prop where
  fault_eq : machine.step.fault = none
  bus_eq : machine.step.machine.bus = machine.bus
  cpu_eq : machine.step.machine.cpu = { machine.cpu with pc := machine.cpu.pc + 4, ir := opcode }

/-- A step that moves a register list through a stack or not at all. -/
structure ChecksPlace (machine : Machine β) (direction : Direction) (opcode : UInt16) : Prop where
  onStack_of_completed : machine.step.fault = none → OnStack direction opcode
  rejects : ¬ OnStack direction opcode → machine.RejectsPlace direction opcode

/-- The stream behind a command word. -/
def behindCommand (machine : Machine β) (opcode second : UInt16) : InstructionStream :=
  ((machine.stream machine.cpu.pc).afterOpcode opcode).afterWord second

omit [Bus β] in
theorem cpu_behindCommand (machine : Machine β) (opcode second : UInt16) :
    (machine.withStream (machine.behindCommand opcode second)).cpu =
      { machine.cpu with pc := machine.cpu.pc + 4, ir := opcode } := by
  have hpc : machine.cpu.pc + 2 + 2 = machine.cpu.pc + 4 := UInt32.add_assoc _ _ _
  rw [← hpc]
  rfl

/-- What is left to be fetched once both words have been. -/
theorem fetch_of_movesList (hopcode : Bus.read16 machine.bus machine.cpu.pc = some opcode)
    (hsecond : Bus.read16 machine.bus (machine.cpu.pc + 2) = some second)
    (hmoves : MovesList direction opcode second) :
    machine.fetch = Fetch.moveMultiple (direction == .write) (UInt8.ofNat direction.listMode)
      (byteField second 0 8) machine.bus (machine.behindCommand opcode second) := by
  have hgroup : OpcodeGroup.decode opcode = .general :=
    (OpcodeGroup.decode_eq_general_iff opcode).mpr hmoves.group_eq
  have hoperation : GeneralOp.decode opcode = some .command := by
    unfold GeneralOp.decode
    rw [hmoves.operation_eq]
    rfl
  calc
    machine.fetch = Fetch.command machine.bus ((machine.stream machine.cpu.pc).afterOpcode opcode) :=
      Fetch.instruction_of_operation hopcode hgroup hoperation
    _ = _ := Fetch.command_of_read hsecond hmoves.decode_eq

theorem rejectsPlace_of_not_onStack
    (hopcode : Bus.read16 machine.bus machine.cpu.pc = some opcode)
    (hsecond : Bus.read16 machine.bus (machine.cpu.pc + 2) = some second)
    (hmoves : MovesList direction opcode second) (hlist : byteField second 0 8 ≠ 0)
    (h : ¬ OnStack direction opcode) : machine.RejectsPlace direction opcode := by
  have hfetch := (fetch_of_movesList hopcode hsecond hmoves).trans
    (Fetch.moveMultiple_of_not_onStack hlist h)
  have hmode : UInt8.ofNat (EffectiveAddress.modeOf (addressField opcode)) = byteField opcode 3 3 :=
    congrArg (fun field : Fin 8 => UInt8.ofNat field) (modeOf_addressField opcode)
  have hregister :
      UInt8.ofNat (EffectiveAddress.registerOf (addressField opcode)) = byteField opcode 0 3 :=
    congrArg (fun field : Fin 8 => UInt8.ofNat field) (registerOf_addressField opcode)
  have hstep := step_of_fetch_error hfetch
  refine ⟨?_, ?_, ?_⟩
  · rw [hstep, ← hmode, ← hregister]
    rfl
  · rw [hstep]
    rfl
  · rw [hstep]
    show { (machine.withStream (machine.behindCommand opcode second)).cpu with stopped := true } = _
    rw [cpu_behindCommand]

theorem passesOver_of_list_eq_zero
    (hopcode : Bus.read16 machine.bus machine.cpu.pc = some opcode)
    (hsecond : Bus.read16 machine.bus (machine.cpu.pc + 2) = some second)
    (hmoves : MovesList direction opcode second) (hlist : byteField second 0 8 = 0) :
    machine.PassesOver opcode := by
  have hfetch := fetch_of_movesList hopcode hsecond hmoves
  rw [hlist] at hfetch
  obtain ⟨instruction, hmultiple, hexecute⟩ := Fetch.moveMultiple_zero direction machine.bus
    (machine.behindCommand opcode second)
  have hstep : machine.step = ⟨none, machine.withStream (machine.behindCommand opcode second)⟩ := by
    refine step_of_execute_ok (hfetch.trans hmultiple) ?_
    rw [hexecute]
    rfl
  refine ⟨?_, ?_, ?_⟩
  · rw [hstep]
  · rw [hstep]
    rfl
  · rw [hstep]
    exact cpu_behindCommand machine opcode second

/-- The place of a register list is checked unless the list is empty; an empty list is passed over
at every place. -/
theorem checksPlace_iff (hopcode : Bus.read16 machine.bus machine.cpu.pc = some opcode)
    (hsecond : Bus.read16 machine.bus (machine.cpu.pc + 2) = some second)
    (hmoves : MovesList direction opcode second) :
    (machine.ChecksPlace direction opcode ↔
      byteField second 0 8 ≠ 0 ∨ OnStack direction opcode) ∧
    (byteField second 0 8 = 0 → machine.PassesOver opcode) := by
  refine ⟨⟨fun hchecks => ?_, fun h => ?_⟩, passesOver_of_list_eq_zero hopcode hsecond hmoves⟩
  · by_cases hlist : byteField second 0 8 = 0
    · exact .inr (hchecks.onStack_of_completed
        (passesOver_of_list_eq_zero hopcode hsecond hmoves hlist).fault_eq)
    · exact .inl hlist
  · by_cases honStack : OnStack direction opcode
    · exact ⟨fun _ => honStack, fun hnot => absurd honStack hnot⟩
    · have hlist : byteField second 0 8 ≠ 0 := h.resolve_right honStack
      have hrejects := rejectsPlace_of_not_onStack hopcode hsecond hmoves hlist honStack
      refine ⟨fun hcompleted => ?_, fun _ => hrejects⟩
      cases hcompleted.symm.trans hrejects.fault_eq

/-- A machine about to push a register list to `(16,A0)`, which is no stack. -/
def aboutToPushDisplaced (list : UInt8) : Machine FlatMemory where
  cpu := { pc := 0x400 }
  bus := .ofProgram 0x10000 0x400 [0xF2, 0x28, 0xE0, list, 0x00, 0x10]

theorem checksPlace_iff_one_register :
    (aboutToPushDisplaced 0x01).RejectsPlace .write 0xF228 ∧
      (aboutToPushDisplaced 0x01).step.fault.map Fault.message
        = some "write ea 96: unhandled mode 5, reg 0 at 00000400" := by
  have hopcode : Bus.read16 (aboutToPushDisplaced 0x01).bus (aboutToPushDisplaced 0x01).cpu.pc
      = some 0xF228 := by decide +kernel
  have hsecond : Bus.read16 (aboutToPushDisplaced 0x01).bus
      ((aboutToPushDisplaced 0x01).cpu.pc + 2) = some 0xE001 := by decide +kernel
  have hmoves : MovesList .write 0xF228 0xE001 :=
    ⟨by decide, by decide, by decide, by decide⟩
  have hchecks := (checksPlace_iff hopcode hsecond hmoves).1.mpr (.inl (by decide))
  exact ⟨hchecks.rejects (by decide), by decide +kernel⟩

/-- Not every place is checked: a list of no registers is pushed to `(16,A0)`, and the displacement
is left to be the next opcode. -/
theorem not_checksPlace :
    ¬ ∀ (machine : Machine FlatMemory) (direction : Direction) (opcode second : UInt16),
      Bus.read16 machine.bus machine.cpu.pc = some opcode →
      Bus.read16 machine.bus (machine.cpu.pc + 2) = some second →
      MovesList direction opcode second → machine.ChecksPlace direction opcode := by
  intro h
  have hchecks := h (aboutToPushDisplaced 0x00) .write 0xF228 0xE000 (by decide +kernel)
    (by decide +kernel) ⟨by decide, by decide, by decide, by decide⟩
  have hcompleted : (aboutToPushDisplaced 0x00).step.fault = none := by decide +kernel
  exact absurd (hchecks.onStack_of_completed hcompleted) (by decide)

end Machine

end M68Fpu
