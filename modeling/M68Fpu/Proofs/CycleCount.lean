import M68Fpu.Bus.Flat
import M68Fpu.Proofs.Calls
import M68Fpu.Proofs.ConditionalBranch
import M68Fpu.Proofs.Interruption
import M68Fpu.Proofs.RegisterList

/-!
# Cycles are charged for completed work

What a step charges can be read off the words at the program counter and the answers of the bus
(`Machine.charge`). A step without a fault charges the whole cost of its instruction
(`nominalCycles`), and one that is refused an access nothing, unless it moves a register list: then
each register that has been transferred before counts (`Machine.transferred`). Resets charge nothing
and keep the count, so that after any calls it has grown by what their steps have charged
(`Machine.cycles_afterCalls`).

A list charges each register right behind its slot. Both loops are followed by induction on the
list, counting accepted accesses along with cycles (`Exec.PartlyMoved`): a register is pushed in
three accesses, as its slot is filled up, and popped in two.
-/

namespace M68Fpu

/-! ## Costs of encodings -/

/-- The cycles of the arithmetic operation with a code, if it has one. -/
def operationCycles (code : UInt8) : Nat :=
  match code with
  | 0x00 => 4
  | 0x04 => 109
  | 0x18 | 0x1A => 3
  | 0x20 => 43
  | 0x22 | 0x28 => 9
  | 0x23 => 11
  | 0x38 | 0x3A => 7
  | _ => 0

/-- The cycles of a command, by its class. A register list costs two cycles for each of its bits. -/
def commandCycles (second : UInt16) : Nat :=
  match octalField second 13 with
  | 0 | 2 => operationCycles (byteField second 0 7)
  | 3 => 12
  | 4 | 5 => 10
  | 6 | 7 => 2 * (listedBits (byteField second 0 8)).length
  | 1 => 0

/-- The cycles of the instruction with an opcode and, if it is a command, a command word. -/
def nominalCycles (opcode second : UInt16) : Nat :=
  match bitField opcode 8 8, bitField opcode 6 2 with
  | 0xF2, 0 => commandCycles second
  | 0xF2, 2 | 0xF2, 3 => 7
  | _, _ => 0

/-- The accesses in which a command pops or pushes each register of a list, if it moves one. -/
def commandAccesses (second : UInt16) : Option Nat :=
  match octalField second 13 with
  | 6 => some 2
  | 7 => some 3
  | _ => none

def listAccesses (opcode second : UInt16) : Option Nat :=
  match bitField opcode 8 8, bitField opcode 6 2 with
  | 0xF2, 0 => commandAccesses second
  | _, _ => none

theorem operationCycles_of_decode {code : UInt8} {opmode : Opmode}
    (h : Opmode.decode code = some opmode) : operationCycles code = opmode.cycles := by
  unfold Opmode.decode at h
  split at h <;> cases h <;> rfl

namespace Instruction

/-- The cycles of an instruction that completes. -/
def cycles : Instruction → Nat
  | arithmetic opmode _ _ => opmode.cycles
  | store _ _ _ => Exec.storeCycles
  | loadControl _ _ | storeControl _ _ => Exec.controlCycles
  | storeMultiple _ registers | loadMultiple _ registers => Exec.multipleCycles * registers.length
  | branch _ _ => Exec.branchCycles
  | saveFrame _ | restoreFrame _ => 0

def listAccesses : Instruction → Option Nat
  | storeMultiple _ _ => some 3
  | loadMultiple _ _ => some 2
  | _ => none

end Instruction

/-- Whether the words of an instruction tell its costs. -/
structure TellsCosts (opcode second : UInt16) (instruction : Instruction) : Prop where
  cycles_eq : nominalCycles opcode second = instruction.cycles
  accesses_eq : listAccesses opcode second = instruction.listAccesses

section Commands

variable {opcode second : UInt16} {fields : Command} {instruction : Instruction}

/-- The class decides which fields a command has, and these which instructions it encodes. -/
theorem commandCycles_eq (hfields : Command.decode second = some fields)
    (h : fields.Encodes opcode instruction) : commandCycles second = instruction.cycles := by
  unfold Command.decode at hfields
  split at hfields <;> rename_i hclass <;> cases hfields <;> cases h <;>
    simp only [commandCycles, hclass]
  case registerArithmetic hopmode | memoryArithmetic hopmode =>
    exact operationCycles_of_decode hopmode
  case store | loadControl | storeControl | storeMultiple => rfl
  case loadMultiple => rw [Instruction.cycles, length_loadedRegisters]; rfl

theorem commandAccesses_eq (hfields : Command.decode second = some fields)
    (h : fields.Encodes opcode instruction) :
    commandAccesses second = instruction.listAccesses := by
  unfold Command.decode at hfields
  split at hfields <;> rename_i hclass <;> cases hfields <;> cases h <;>
    simp only [commandAccesses, hclass] <;> rfl

theorem tellsCosts_of_command (hcommand : IsCommand opcode)
    (hfields : Command.decode second = some fields) (h : fields.Encodes opcode instruction) :
    TellsCosts opcode second instruction := by
  have hgroup : bitField opcode 8 8 = 0xF2 :=
    (OpcodeGroup.decode_eq_general_iff opcode).mp hcommand.1
  have hoperation : bitField opcode 6 2 = 0 :=
    (GeneralOp.decode_eq_command_iff opcode).mp hcommand.2
  constructor
  · rw [← commandCycles_eq hfields h, nominalCycles, hgroup, hoperation]
    rfl
  · rw [← commandAccesses_eq hfields h, listAccesses, hgroup, hoperation]
    rfl

end Commands

/-! ## Steps that complete -/

namespace Exec

variable {β : Type} [Bus β] {before after : Machine β} {instruction : Instruction}

theorem Completed.cycles_eq (h : Completed before after instruction) :
    after.cpu.cycles = before.cpu.cycles + instruction.cycles := by
  cases h with
  | arithmetic _ _ hcpu =>
    rw [hcpu, Source.moved_eq]
    rfl
  | store _ _ hcpu | storeControl _ _ hcpu =>
    rw [hcpu, Destination.written_eq]
    rfl
  | @loadControl register source value _ _ hcpu =>
    rw [hcpu, Operand.moved_eq]
    cases register <;> rfl
  | storeMultiple _ hcpu | loadMultiple _ _ hcpu | taken _ _ hcpu | notTaken _ _ hcpu =>
    rw [hcpu]
    rfl
  | saveFrame _ hcpu =>
    rw [hcpu, Destination.written_eq]
    rfl
  | restoreFrame _ _ hcpu =>
    rw [hcpu, Operand.moved_eq]
    rfl

end Exec

/-! ## Transfers -/

/-- Whether an event is an access to an operand that the bus has accepted. -/
def BusEvent.isTransfer : BusEvent → Bool
  | read .data _ _ value => value.isSome
  | write _ _ _ accepted => accepted
  | _ => false

theorem BusEvent.IsFetch.isTransfer_eq {event : BusEvent} (h : event.IsFetch) :
    event.isTransfer = false := by
  cases event with
  | read space => cases h; rfl
  | write | branch => exact h.elim

/-- The accepted accesses to operands among those that a machine has recorded. -/
def Machine.transfers {β : Type} (machine : Machine β) : Nat :=
  machine.events.countP BusEvent.isTransfer

theorem Machine.transfers_record {β : Type} (machine : Machine β) (event : BusEvent) :
    (machine.record event).transfers
      = machine.transfers + if event.isTransfer then 1 else 0 := by
  simp [transfers, record, List.countP_append, List.countP_singleton]

namespace Exec

variable {β : Type} [Bus β] {machine middle last : Machine β} {fault : Fault}

theorem transfers_writeLong_ok {address value : UInt32}
    (h : writeLong address value machine = .ok () last) :
    last.transfers = machine.transfers + 1 := by
  obtain ⟨bus, -, rfl⟩ := writeLong_eq_ok_iff.mp h
  exact machine.transfers_record _

theorem transfers_readLong_ok {address value : UInt32}
    (h : readLong address machine = .ok value last) :
    last.transfers = machine.transfers + 1 := by
  obtain ⟨-, rfl⟩ := readLong_eq_ok_iff.mp h
  exact machine.transfers_record _

theorem transfers_writeLongs_ok {address : UInt32} {values : List UInt32}
    (h : writeLongs address values machine = .ok () last) :
    last.transfers = machine.transfers + values.length := by
  induction values generalizing address machine with
  | nil => cases h; rfl
  | cons value rest ih =>
    obtain ⟨_, middle, hfirst, hrest⟩ := bind_eq_ok_iff.mp h
    rw [ih hrest, transfers_writeLong_ok hfirst, List.length_cons]
    omega

theorem transfers_writeLongs_error {address : UInt32} {values : List UInt32}
    (h : writeLongs address values machine = .error fault last) :
    ∃ count < values.length, last.transfers = machine.transfers + count := by
  induction values generalizing address machine with
  | nil => cases h
  | cons value rest ih =>
    rcases bind_eq_error_iff.mp h with hfirst | ⟨_, middle, hfirst, hrest⟩
    · obtain ⟨-, -, rfl⟩ := written_eq_error_iff.mp hfirst
      exact ⟨0, Nat.succ_pos _, machine.transfers_record _⟩
    · obtain ⟨count, hcount, htransfers⟩ := ih hrest
      refine ⟨count + 1, Nat.succ_lt_succ hcount, ?_⟩
      rw [htransfers, transfers_writeLong_ok hfirst]
      omega

/-- A slot is read in two accesses. -/
theorem transfers_readMemory_ok {address : UInt32} {value : UInt64}
    (h : readMemory .extended address machine = .ok value last) :
    last.transfers = machine.transfers + 2 := by
  obtain ⟨high, middle, hhigh, hrest⟩ := bind_eq_ok_iff.mp h
  obtain ⟨low, _, hlow, hpure⟩ := bind_eq_ok_iff.mp hrest
  cases hpure
  rw [transfers_readLong_ok hlow, transfers_readLong_ok hhigh]

theorem transfers_readMemory_error {address : UInt32}
    (h : readMemory .extended address machine = .error fault last) :
    ∃ count < 2, last.transfers = machine.transfers + count := by
  rcases bind_eq_error_iff.mp h with hhigh | ⟨high, middle, hhigh, hrest⟩
  · obtain ⟨-, -, rfl⟩ := readLong_eq_error_iff.mp hhigh
    exact ⟨0, by omega, machine.transfers_record _⟩
  · rcases bind_eq_error_iff.mp hrest with hlow | ⟨_, _, _, hpure⟩
    · obtain ⟨-, -, rfl⟩ := readLong_eq_error_iff.mp hlow
      refine ⟨1, by omega, ?_⟩
      rw [← transfers_readLong_ok hhigh]
      exact middle.transfers_record _
    · cases hpure

/-! ## Register lists that are refused a slot -/

/-- How far a register list has been moved that takes `accesses` accesses for each register: `count`
registers as a whole, and maybe a part of the next. -/
structure PartlyMoved (accesses count : Nat) (first last : Machine β) : Prop where
  cycles_eq : last.cpu.cycles = first.cpu.cycles + multipleCycles * count
  transfers_eq : ∃ rest < accesses, last.transfers = first.transfers + accesses * count + rest

omit [Bus β] in
theorem PartlyMoved.cons {accesses count : Nat}
    (hcycles : middle.cpu.cycles = machine.cpu.cycles + multipleCycles)
    (htransfers : middle.transfers = machine.transfers + accesses)
    (h : PartlyMoved accesses count middle last) :
    PartlyMoved accesses (count + 1) machine last := by
  obtain ⟨hcount, rest, hrest, hlast⟩ := h
  refine ⟨?_, rest, hrest, ?_⟩
  · rw [hcount, hcycles, Nat.mul_succ]
    omega
  · rw [hlast, htransfers, Nat.mul_succ]
    omega

omit [Bus β] in
theorem PartlyMoved.div_eq {accesses count : Nat} (h : PartlyMoved accesses count machine last)
    (hfirst : machine.transfers = 0) : last.transfers / accesses = count := by
  obtain ⟨rest, hrest, hlast⟩ := h.transfers_eq
  rw [hlast, hfirst, Nat.zero_add]
  rw [Nat.mul_add_div (by omega), Nat.div_eq_of_lt hrest, Nat.add_zero]

theorem partlyMoved_storeMultiple {base : Fin 8} {registers : List (Fin 8)}
    (h : storeMultiple base registers machine = .error fault last) :
    ∃ count, PartlyMoved 3 count machine last := by
  induction registers generalizing machine with
  | nil => cases h
  | cons n rest ih =>
    rw [storeMultiple, address_bind, cpu_bind, writeMemory_eq_writeLongs (by decide)] at h
    rcases bind_eq_error_iff.mp h with hwrite | ⟨_, written, hwrite, hrest⟩
    · have hcpu := (writeLongs_error hwrite).2.cpu_eq
      obtain ⟨count, hcount, htransfers⟩ := transfers_writeLongs_error hwrite
      exact ⟨0, by rw [hcpu]; rfl, count, hcount, htransfers⟩
    · have hcpu := (writeLongs_ok hwrite).2.cpu_eq
      have htransfers := transfers_writeLongs_ok hwrite
      rw [charge, modifyCpu_bind] at hrest
      obtain ⟨count, hmoved⟩ := ih hrest
      refine ⟨count + 1, PartlyMoved.cons ?_ ?_ hmoved⟩
      · show written.cpu.cycles + multipleCycles = _
        rw [hcpu]
        rfl
      · exact htransfers

theorem partlyMoved_loadMultiple {base : Fin 8} {registers : List (Fin 8)}
    (h : loadMultiple base registers machine = .error fault last) :
    ∃ count, PartlyMoved 2 count machine last := by
  induction registers generalizing machine with
  | nil => cases h
  | cons n rest ih =>
    rw [loadMultiple, address_bind] at h
    rcases bind_eq_error_iff.mp h with hread | ⟨bits, read, hread, hrest⟩
    · have hcpu := (readMemory_error hread).2.2.cpu_eq
      obtain ⟨count, hcount, htransfers⟩ := transfers_readMemory_error hread
      exact ⟨0, by rw [hcpu]; rfl, count, hcount, htransfers⟩
    · have hcpu := (readMemory_ok hread).2.2.cpu_eq
      have htransfers := transfers_readMemory_ok hread
      rw [setFp, modifyCpu_bind, charge, modifyCpu_bind] at hrest
      obtain ⟨count, hmoved⟩ := ih hrest
      refine ⟨count + 1, PartlyMoved.cons ?_ ?_ hmoved⟩
      · show read.cpu.cycles + multipleCycles = _
        rw [hcpu]
        rfl
      · exact htransfers

/-- What a refused instruction has charged. -/
theorem cycles_of_aborted {instruction : Instruction}
    (h : execute instruction machine = .error fault last) (hstart : machine.transfers = 0) :
    last.cpu.cycles = machine.cpu.cycles
      + match instruction.listAccesses with
        | some accesses => multipleCycles * (last.transfers / accesses)
        | none => 0 := by
  have hinterrupted := (aborted_execute h).interrupted
  cases instruction with
  | storeMultiple base registers =>
    obtain ⟨count, hmoved⟩ := partlyMoved_storeMultiple h
    rw [hmoved.cycles_eq, ← hmoved.div_eq hstart]
    rfl
  | loadMultiple base registers =>
    obtain ⟨count, hmoved⟩ := partlyMoved_loadMultiple h
    rw [hmoved.cycles_eq, ← hmoved.div_eq hstart]
    rfl
  | _ =>
    cases hinterrupted with
    | reading _ _ _ _ _ hcycles | writing _ _ _ _ hcycles => exact hcycles

end Exec

/-! ## Steps and calls -/

namespace Machine

variable {β : Type} [Bus β] {machine : Machine β}

/-- The word at the program counter, or zero if the bus refuses it. -/
def firstWord (machine : Machine β) : UInt16 :=
  (Bus.read16 machine.bus machine.cpu.pc).getD 0

/-- The word behind the one at the program counter, or zero if the bus refuses it. -/
def secondWord (machine : Machine β) : UInt16 :=
  (Bus.read16 machine.bus (machine.cpu.pc + 2)).getD 0

/-- The registers that a step transfers as a whole, if its instruction moves a register list. -/
def transferred (machine : Machine β) : Nat :=
  match listAccesses machine.firstWord machine.secondWord with
  | some accesses => machine.step.machine.transfers / accesses
  | none => 0

/-- The cycles that a step charges. -/
def charge (machine : Machine β) : Nat :=
  match machine.step.fault with
  | none => nominalCycles machine.firstWord machine.secondWord
  | some .busError => 2 * machine.transferred
  | some _ => 0

/-- The cycles that calls charge. -/
def charges (machine : Machine β) : List Call → Nat
  | [] => 0
  | .step :: rest => machine.charge + machine.step.machine.charges rest
  | .reset :: rest => machine.reset.machine.charges rest

theorem tellsCosts_of_fetch {instruction : Instruction} {stream : InstructionStream}
    (h : machine.fetch = .ok instruction stream) :
    TellsCosts machine.firstWord machine.secondWord instruction := by
  obtain ⟨opcode, second, ⟨hopcode, hsecond⟩, hencodes, -⟩ := encoded_fetch h
  have hfirst : machine.firstWord = opcode := by rw [firstWord, hopcode]; rfl
  rw [hfirst]
  cases hencodes with
  | command hcommand hfields hinstruction =>
    have hbehind : machine.secondWord = second := by rw [secondWord, hsecond hcommand]; rfl
    rw [hbehind]
    exact tellsCosts_of_command hcommand hfields hinstruction
  | branch target =>
    obtain ⟨form, _, displacement, hbranch⟩ := hasBranch_of_fetch h
    obtain rfl := Option.some.inj (hopcode.symm.trans hbranch.opcode_eq)
    constructor
    · rw [nominalCycles, hbranch.group_eq, hbranch.operation_eq]
      cases form <;> rfl
    · rw [listAccesses, hbranch.group_eq, hbranch.operation_eq]
      cases form <;> rfl
  | saveFrame hgroup | restoreFrame hgroup =>
    have hgroup := (OpcodeGroup.decode_eq_stateFrame_iff opcode).mp hgroup
    constructor
    · rw [nominalCycles, hgroup]
      rfl
    · rw [listAccesses, hgroup]
      rfl

omit [Bus β] in
/-- The fetch of an instruction transfers nothing. -/
theorem transfers_withStream (machine : Machine β) {stream : InstructionStream}
    (h : ∀ event ∈ stream.events, event.IsFetch) : (machine.withStream stream).transfers = 0 := by
  rw [transfers, List.countP_eq_zero]
  intro event hmem
  rw [(h event hmem).isTransfer_eq]
  exact Bool.false_ne_true

/-- Every step charges what its words and the answers of the bus say, however it ends. -/
theorem cycles_step (machine : Machine β) :
    machine.step.machine.cpu.cycles = machine.cpu.cycles + machine.charge := by
  have hsteps := machine.steps_step
  unfold charge transferred
  generalize machine.step = outcome at hsteps ⊢
  cases hsteps with
  | @unfetched fault stream hfetch =>
    have hnone : (machine.withStream stream).stop.transfers = 0 :=
      machine.transfers_withStream (isFetch_of_fetch_error hfetch)
    show machine.cpu.cycles = _
    rw [hnone]
    cases fault with
    | busError => cases listAccesses machine.firstWord machine.secondWord <;> simp
    | illegalInstruction | decode => rfl
  | completed hfetch hexecute =>
    have hcompleted := Exec.completed_execute hexecute
    show _ = _ + nominalCycles machine.firstWord machine.secondWord
    rw [(tellsCosts_of_fetch hfetch).cycles_eq]
    exact hcompleted.cycles_eq
  | @refused instruction stream last hfetch hexecute =>
    have hstart := machine.transfers_withStream (isFetch_of_covers (covers_of_fetch hfetch))
    have hcycles := Exec.cycles_of_aborted hexecute hstart
    rw [(tellsCosts_of_fetch hfetch).accesses_eq]
    refine hcycles.trans ?_
    cases instruction.listAccesses <;> rfl

/-- The registers that are charged for when a list is refused a slot: that is as many as the cycles
tell. -/
theorem transferred_eq {count : Nat} (hfault : machine.step.fault = some .busError)
    (hcycles : machine.step.machine.cpu.cycles
      = machine.cpu.cycles + Exec.multipleCycles * count) : machine.transferred = count := by
  have hstep := machine.cycles_step
  have hcharge : machine.charge = 2 * machine.transferred := by rw [charge, hfault]
  have hmultiple : Exec.multipleCycles = 2 := rfl
  rw [hcharge, hcycles, hmultiple] at hstep
  omega

/-- The registers that count in a push that is refused a slot are the first of the list, and their
slots are those that the bus has accepted. -/
theorem pushed_transferred {base : Fin 8} {registers : List (Fin 8)}
    (hfault : machine.step.fault = some .busError)
    (hfetched : machine.fetched = some (.storeMultiple base registers)) :
    machine.transferred < registers.length ∧
      (Bus.pushSlots machine.bus (machine.cpu.address.get base)
        ((registers.take machine.transferred).map fun n => (machine.cpu.fp.get n).bits)).isSome := by
  have hinterrupted := (interruption_step hfault).fetched _ hfetched
  cases hinterrupted with
  | reading hsource => cases hsource
  | writing htarget => cases htarget
  | pushing hregister hslots _ _ _ hcycles =>
    rw [transferred_eq hfault hcycles, hslots]
    exact ⟨(List.getElem?_eq_some_iff.mp hregister).1, rfl⟩

/-- The registers that count in a pop that is refused a slot are the first of the list, and they
have been loaded. -/
theorem popped_transferred {base : Fin 8} {registers : List (Fin 8)}
    (hfault : machine.step.fault = some .busError)
    (hfetched : machine.fetched = some (.loadMultiple base registers)) :
    machine.transferred < registers.length ∧
      Bus.popSlots machine.bus (machine.cpu.address.get base) machine.cpu.fp
        (registers.take machine.transferred) = some machine.step.machine.cpu.fp := by
  have hinterrupted := (interruption_step hfault).fetched _ hfetched
  cases hinterrupted with
  | reading hsource => cases hsource
  | writing htarget => cases htarget
  | popping hregister hfp _ _ _ hcycles =>
    rw [transferred_eq hfault hcycles]
    exact ⟨(List.getElem?_eq_some_iff.mp hregister).1, hfp⟩

theorem cycles_reset (machine : Machine β) :
    machine.reset.machine.cpu.cycles = machine.cpu.cycles := by
  have hresets := machine.resets_reset
  generalize machine.reset = outcome at hresets
  cases hresets <;> rfl

theorem cycles_eq_charges (machine : Machine β) (calls : List Call) :
    (machine.afterCalls calls).cpu.cycles = machine.cpu.cycles + machine.charges calls := by
  induction calls generalizing machine with
  | nil => rfl
  | cons call rest ih =>
    cases call with
    | step =>
      show (machine.step.machine.afterCalls rest).cpu.cycles = _
      rw [ih, cycles_step, charges, Nat.add_assoc]
    | reset =>
      show (machine.reset.machine.afterCalls rest).cpu.cycles = _
      rw [ih, cycles_reset, charges]

theorem afterCalls_append (machine : Machine β) (first second : List Call) :
    machine.afterCalls (first ++ second) = (machine.afterCalls first).afterCalls second := by
  induction first generalizing machine with
  | nil => rfl
  | cons call rest ih => exact ih _

/-- After any calls the cycle count has grown by what their steps have charged, and it never
decreases on the way. -/
theorem cycles_afterCalls (machine : Machine β) (calls : List Call) :
    (machine.afterCalls calls).cpu.cycles = machine.cpu.cycles + machine.charges calls ∧
      ∀ others, (machine.afterCalls calls).cpu.cycles
        ≤ (machine.afterCalls (calls ++ others)).cpu.cycles := by
  refine ⟨machine.cycles_eq_charges calls, ?_⟩
  intro others
  rw [afterCalls_append, cycles_eq_charges _ others]
  exact Nat.le_add_right _ _

/-- A push of three registers of which the second is refused its padding. -/
example : aboutToPushPastRefusal.step.fault = some .busError ∧ aboutToPushPastRefusal.charge = 2 := by
  decide +kernel

end Machine

end M68Fpu
