import M68Fpu.Proofs.Completion
import M68Fpu.Proofs.ConditionCodes
import M68Fpu.Proofs.EncodedInstruction

/-!
# What an instruction may change

The registers and the memory that an instruction may change can be read off it (`Footprint`), as the
program counter, the instruction register and the cycle count always change. A step without a fault
changes nothing else (`Machine.changesOnly_step`): memory is written at exactly the named longs, and
an address register moves by exactly the operands that it went over.
-/

namespace M68Fpu

/-! ## Writes of longs -/

/-- The addresses of `count` longs from `address` on. -/
def longsFrom (address : UInt32) (count : Nat) : List UInt32 :=
  (List.range count).map fun i => address + UInt32.ofNat (4 * i)

/-- The addresses of the longs of `count` slots below `address`, from the first slot down. -/
def slotLongs (address : UInt32) (count : Nat) : List UInt32 :=
  (List.range count).flatMap fun k => longsFrom (slotBelow address k) 3

theorem Width.length_longs {width : Width} (hwide : 4 ≤ width.bytes) (value : UInt64) :
    (width.longs value).length = width.bytes / 4 := by
  cases width with
  | byte | word => exact absurd hwide (by decide)
  | long | quad | extended => simp [Width.longs, Width.bytes]

theorem longsFrom_succ (address : UInt32) (count : Nat) :
    longsFrom address (count + 1) = address :: longsFrom (address + 4) count := by
  have hnext (i : Nat) : address + UInt32.ofNat (4 * (i + 1)) = address + 4 + UInt32.ofNat (4 * i) := by
    rw [show (4 : UInt32) = UInt32.ofNat 4 from rfl, add_ofNat_add_ofNat, Nat.mul_succ, Nat.add_comm]
  simp only [longsFrom, List.range_succ_eq_map, List.map_cons, List.map_map, Function.comp_def,
    Nat.succ_eq_add_one, hnext]
  simp

theorem slotLongs_succ (address : UInt32) (count : Nat) :
    slotLongs address (count + 1)
      = longsFrom (slotBelow address 0) 3 ++ slotLongs (slotBelow address 0) count := by
  simp only [slotLongs, List.range_succ_eq_map, List.flatMap_cons, List.flatMap_map,
    slotBelow_slotBelow, Nat.succ_eq_add_one]

namespace Bus

variable {β : Type} [Bus β] {first middle last : β}

/-- Accepted writes of longs, one at each of the addresses. -/
inductive WritesAt (first : β) : List UInt32 → β → Prop
  | nil : WritesAt first [] first
  | snoc {addresses : List UInt32} {address value : UInt32} {middle last : β}
      (h : WritesAt first addresses middle)
      (hwrite : write32 middle address value = some last) :
      WritesAt first (addresses ++ [address]) last

theorem WritesAt.append {addresses others : List UInt32} (hfirst : WritesAt first addresses middle)
    (hlast : WritesAt middle others last) : WritesAt first (addresses ++ others) last := by
  induction hlast with
  | nil => rwa [List.append_nil]
  | snoc _ hwrite ih =>
    rw [← List.append_assoc]
    exact ih.snoc hwrite

theorem WritesAt.cons {addresses : List UInt32} {address value : UInt32}
    (hwrite : write32 first address value = some middle) (h : WritesAt middle addresses last) :
    WritesAt first (address :: addresses) last :=
  append (.snoc .nil hwrite) h

theorem writesAt_of_writeLongs {address : UInt32} {values : List UInt32}
    (h : writeLongs first address values = some last) :
    WritesAt first (longsFrom address values.length) last := by
  induction values generalizing first address with
  | nil => cases h; exact .nil
  | cons value rest ih =>
    obtain ⟨middle, hwrite, hrest⟩ := Option.bind_eq_some_iff.mp h
    rw [List.length_cons, longsFrom_succ]
    exact .cons hwrite (ih hrest)

theorem writesAt_of_pushSlots {address : UInt32} {values : List UInt64}
    (h : pushSlots first address values = some last) :
    WritesAt first (slotLongs address values.length) last := by
  induction values generalizing first address with
  | nil => cases h; exact .nil
  | cons value rest ih =>
    obtain ⟨middle, hslot, hrest⟩ := Option.bind_eq_some_iff.mp h
    rw [List.length_cons, slotLongs_succ]
    exact (writesAt_of_writeLongs hslot).append (ih hrest)

/-- Writes of longs change the bytes of these longs and no others. -/
theorem WritesAt.contents_eq [ByteMemory β] {addresses : List UInt32}
    (h : WritesAt first addresses last) {address : UInt32}
    (hout : ∀ start ∈ addresses, ¬ Within start 4 address) :
    ByteMemory.contents last address = ByteMemory.contents first address := by
  induction h with
  | nil => rfl
  | @snoc addresses start value middle last _ hwrite ih =>
    have hlast : ¬ Within start 4 address := hout start (List.mem_append_right _ (by simp))
    rw [ByteMemory.write32_eq hwrite, Contents.putLong_of_not_within hlast]
    exact ih fun other hmem => hout other (List.mem_append_left _ hmem)

end Bus

/-! ## Footprints -/

/-- What an instruction may change. -/
structure Footprint where
  /-- The data register that is set. -/
  data : Option (Fin 8) := none
  /-- The floating-point registers that are set. -/
  fp : List (Fin 8) := []
  /-- The control register that is loaded. -/
  control : Option ControlRegister := none
  /-- Whether the condition codes are replaced. -/
  reports : Bool := false
  /-- How far each address register moves. -/
  moves : Fin 8 → UInt32 := fun _ => 0
  /-- The addresses at which longs are written. -/
  longs : List UInt32 := []
  /-- Whether a branch is taken. -/
  branches : Bool := false

/-- How far the address registers move with a place. -/
def Reference.motion (width : Width) : Reference → Fin 8 → UInt32
  | .postIncrement n, k => if k = n then width.step n else 0
  | .preDecrement n, k => if k = n then -width.step n else 0
  | _, _ => 0

def Operand.motion (width : Width) : Operand → Fin 8 → UInt32
  | .memory place => place.motion width
  | .dataRegister _ | .immediate _ => fun _ => 0

def Source.motion : Source → Fin 8 → UInt32
  | .operand format place => place.motion format.width
  | .register _ => fun _ => 0

/-- A destination is a data register or the longs at its address. -/
def Destination.footprint (width : Width) (cpu : Cpu) : Destination → Footprint
  | .dataRegister n => { data := some n }
  | .memory place => {
      moves := place.motion width
      longs := longsFrom (place.address width cpu) (width.bytes / 4) }

def Instruction.footprint (cpu : Cpu) : Instruction → Footprint
  | .arithmetic opmode source destination => {
      fp := match opmode with
        | .cmp | .tst => []
        | _ => [destination]
      reports := match opmode with
        | .move | .div => false
        | _ => true
      moves := source.motion }
  | .store format _ destination => destination.footprint format.width cpu
  | .loadControl register source => { control := some register, moves := source.motion .long }
  | .storeControl _ destination | .saveFrame destination => destination.footprint .long cpu
  | .storeMultiple base registers => {
      moves := fun k => if k = base then -UInt32.ofNat (12 * registers.length) else 0
      longs := slotLongs (cpu.address.get base) registers.length }
  | .loadMultiple base registers => {
      fp := registers
      moves := fun k => if k = base then UInt32.ofNat (12 * registers.length) else 0 }
  | .branch condition _ => { branches := condition.holds cpu.fpsr }
  | .restoreFrame source => { moves := source.motion .long }

/-- Processors that differ in the registers of a footprint at most, apart from the program counter,
the instruction register and the cycle count. -/
structure Footprint.Covers (footprint : Footprint) (before after : Cpu) : Prop where
  data_eq {n : Fin 8} : footprint.data ≠ some n → after.data.get n = before.data.get n
  address_eq (n : Fin 8) : after.address.get n = before.address.get n + footprint.moves n
  fp_eq {n : Fin 8} : n ∉ footprint.fp → after.fp.get n = before.fp.get n
  fpcr_eq : footprint.control ≠ some .fpcr → after.fpcr = before.fpcr
  fpiar_eq : footprint.control ≠ some .fpiar → after.fpiar = before.fpiar
  /-- A report changes the condition codes and no other bit of the status. -/
  status_eq : footprint.control ≠ some .fpsr →
    after.fpsr &&& ~~~conditionMask = before.fpsr &&& ~~~conditionMask
  fpsr_eq : footprint.control ≠ some .fpsr → footprint.reports = false → after.fpsr = before.fpsr
  stopped_eq : after.stopped = before.stopped

/-! ### Moved registers -/

/-- A register that was replaced by its sum with a distance has moved by that distance. -/
theorem Bank.get_put_add (bank : Bank UInt32) (n k : Fin 8) (distance : UInt32) :
    (bank.put n (bank.get n + distance)).get k = bank.get k + if k = n then distance else 0 := by
  by_cases h : k = n
  · subst h
    rw [get_put_self, if_pos rfl]
  · rw [get_put_of_ne bank (Ne.symm h), if_neg h, UInt32.add_zero]

theorem Reference.get_moved (width : Width) (cpu : Cpu) (place : Reference) (n : Fin 8) :
    (place.moved width cpu).address.get n = cpu.address.get n + place.motion width n := by
  cases place with
  | postIncrement k => exact Bank.get_put_add _ _ _ _
  | preDecrement k =>
    show (cpu.address.put k (cpu.address.get k - width.step k)).get n = _
    rw [UInt32.sub_eq_add_neg]
    exact Bank.get_put_add _ _ _ _
  | _ => exact (UInt32.add_zero _).symm

theorem Operand.get_moved (width : Width) (cpu : Cpu) (operand : Operand) (n : Fin 8) :
    (operand.moved width cpu).address.get n = cpu.address.get n + operand.motion width n := by
  cases operand with
  | memory place => exact place.get_moved width cpu n
  | dataRegister | immediate => exact (UInt32.add_zero _).symm

theorem Source.get_moved (cpu : Cpu) (source : Source) (n : Fin 8) :
    (source.moved cpu).address.get n = cpu.address.get n + source.motion n := by
  cases source with
  | operand format place => exact place.get_moved format.width cpu n
  | register => exact (UInt32.add_zero _).symm

/-! ### Processors -/

namespace Footprint

/-- A processor of which nothing but the address registers has changed as far as footprints go. -/
theorem covers_moved {footprint : Footprint} {cpu : Cpu} {address : Bank UInt32}
    (haddress : ∀ n, address.get n = cpu.address.get n + footprint.moves n) (pc : UInt32)
    (cycles : Nat) : footprint.Covers cpu { cpu with address, pc, cycles } :=
  ⟨fun _ => rfl, haddress, fun _ => rfl, fun _ => rfl, fun _ => rfl, fun _ => rfl, fun _ _ => rfl,
    rfl⟩

theorem covers_arithmetic (opmode : Opmode) (source : Source) (destination : Fin 8)
    (value : Double) (cpu : Cpu) :
    ((Instruction.arithmetic opmode source destination).footprint cpu).Covers cpu
      (opmode.completed destination value (source.moved cpu)) := by
  rw [source.moved_eq cpu]
  refine ⟨fun _ => rfl, source.get_moved cpu, ?_, fun _ => rfl, fun _ => rfl, fun _ => ?_, fun _ => ?_, rfl⟩
  · intro n hn
    have hput (result : Double) (hn : n ∉ [destination]) :
        (cpu.fp.put destination result).get n = cpu.fp.get n :=
      Bank.get_put_of_ne _ (fun h => hn (List.mem_singleton.mpr h.symm)) _
    cases opmode with
    | cmp | tst => rfl
    | _ => exact hput _ hn
  · cases opmode with
    | move | div => rfl
    | _ => exact withConditionCodes_and_not_conditionMask _ _
  · intro hreports
    cases opmode with
    | move | div => rfl
    | _ => cases hreports

theorem covers_loadControl (register : ControlRegister) (source : Operand) (value : UInt32)
    (cpu : Cpu) (cycles : Nat) :
    ((Instruction.loadControl register source).footprint cpu).Covers cpu
      ((register.put value (source.moved .long cpu)).charged cycles) := by
  have haddress := source.get_moved .long cpu
  rw [source.moved_eq .long cpu]
  -- The loaded register is excluded from what is unchanged, and the other two are untouched.
  cases register with
  | fpcr =>
    exact ⟨fun _ => rfl, haddress, fun _ => rfl, fun h => absurd rfl h, fun _ => rfl, fun _ => rfl,
      fun _ _ => rfl, rfl⟩
  | fpiar =>
    exact ⟨fun _ => rfl, haddress, fun _ => rfl, fun _ => rfl, fun h => absurd rfl h, fun _ => rfl,
      fun _ _ => rfl, rfl⟩
  | fpsr =>
    exact ⟨fun _ => rfl, haddress, fun _ => rfl, fun _ => rfl, fun _ => rfl,
      fun h => absurd rfl h, fun h => absurd rfl h, rfl⟩

theorem covers_written (destination : Destination) (width : Width) (value : UInt64) (cpu : Cpu)
    (cycles : Nat) :
    (destination.footprint width cpu).Covers cpu
      ((destination.written width value cpu).charged cycles) := by
  cases destination with
  | dataRegister n =>
    refine ⟨fun {k} hk => ?_, fun _ => (UInt32.add_zero _).symm, fun _ => rfl, fun _ => rfl,
      fun _ => rfl, fun _ => rfl, fun _ _ => rfl, rfl⟩
    exact Bank.get_put_of_ne _ (fun h => hk (congrArg some h)) _
  | memory place =>
    rw [Destination.written, place.moved_eq width cpu]
    exact covers_moved (place.get_moved width cpu) _ _

end Footprint

/-- A bank is loaded from slots in the registers of the list alone. -/
theorem get_of_popSlots {β : Type} [Bus β] {bus : β} {address : UInt32} {fp loaded : Bank Double}
    {registers : List (Fin 8)} (h : Bus.popSlots bus address fp registers = some loaded)
    {n : Fin 8} (hn : n ∉ registers) : loaded.get n = fp.get n := by
  induction registers generalizing address fp with
  | nil => cases h; rfl
  | cons k rest ih =>
    obtain ⟨bits, -, hrest⟩ := Option.bind_eq_some_iff.mp h
    rw [List.mem_cons, not_or] at hn
    rw [ih hrest hn.2]
    exact Bank.get_put_of_ne _ (Ne.symm hn.1) _

theorem Footprint.covers_of_completed {β : Type} [Bus β] {before after : Machine β}
    {instruction : Instruction} (h : Exec.Completed before after instruction) :
    (instruction.footprint before.cpu).Covers before.cpu after.cpu := by
  cases h with
  | arithmetic _ _ hcpu => rw [hcpu]; exact covers_arithmetic _ _ _ _ _
  | store _ _ hcpu => rw [hcpu]; exact covers_written _ _ _ _ _
  | loadControl _ _ hcpu => rw [hcpu]; exact covers_loadControl _ _ _ _ _
  | storeControl _ _ hcpu => rw [hcpu]; exact covers_written _ _ _ _ _
  | storeMultiple _ hcpu =>
    rw [hcpu, UInt32.sub_eq_add_neg]
    exact covers_moved (fun n => Bank.get_put_add _ _ _ _) _ _
  | @loadMultiple base registers fp hfp _ hcpu =>
    rw [hcpu]
    exact ⟨fun _ => rfl, fun n => Bank.get_put_add _ _ _ _, fun hn => get_of_popSlots hfp hn,
      fun _ => rfl, fun _ => rfl, fun _ => rfl, fun _ _ => rfl, rfl⟩
  | taken _ _ hcpu | notTaken _ _ hcpu =>
    rw [hcpu]
    exact covers_moved (fun n => (UInt32.add_zero _).symm) _ _
  | saveFrame _ hcpu => rw [hcpu]; exact covers_written _ _ _ _ 0
  | @restoreFrame source _ _ _ hcpu =>
    rw [hcpu, source.moved_eq .long before.cpu]
    exact covers_moved (source.get_moved .long before.cpu) _ _

/-! ### Buses -/

/-- What becomes of a bus: longs are written at the addresses of the footprint, and then a branch is
traced if it is taken. -/
inductive Footprint.Writes {β : Type} [Bus β] (footprint : Footprint) (before : β) : β → Prop
  | stays {after : β} (hbranches : footprint.branches = false)
      (h : Bus.WritesAt before footprint.longs after) : Writes footprint before after
  | branches (hbranches : footprint.branches = true) (hlongs : footprint.longs = []) :
      Writes footprint before (Bus.traceBranch before)

namespace Footprint

variable {β : Type} [Bus β] {before after : Machine β} {instruction : Instruction}

theorem writes_store {destination : Destination} {width : Width} {value : UInt64}
    (hwide : 4 ≤ width.bytes)
    (h : destination.store before.bus before.cpu width value = some after.bus) :
    (destination.footprint width before.cpu).Writes before.bus after.bus := by
  cases destination with
  | dataRegister n =>
    refine .stays rfl ?_
    rw [← Option.some.inj h]
    exact .nil
  | memory place =>
    refine .stays rfl ?_
    have hlongs := Bus.writesAt_of_writeLongs h
    rwa [Width.length_longs hwide] at hlongs

theorem writes_of_completed (h : Exec.Completed before after instruction) :
    (instruction.footprint before.cpu).Writes before.bus after.bus := by
  cases h with
  | arithmetic _ hbus | loadControl _ hbus | loadMultiple _ hbus | restoreFrame _ hbus =>
    rw [hbus]
    exact .stays rfl .nil
  | @store format _ _ _ _ hbus => exact writes_store (by cases format <;> decide) hbus
  | storeControl _ hbus | saveFrame hbus => exact writes_store (by decide) hbus
  | storeMultiple hbus =>
    have hlongs := Bus.writesAt_of_pushSlots hbus
    rw [List.length_map] at hlongs
    exact .stays rfl hlongs
  | taken hholds hbus =>
    rw [hbus]
    exact .branches hholds rfl
  | notTaken hholds hbus =>
    rw [hbus]
    exact .stays hholds .nil

end Footprint

/-! ## Steps -/

namespace Machine

variable {β : Type} [Bus β] {machine : Machine β}

/-- Machines that differ in a footprint at most. Of memory, all bytes outside of the longs of the
footprint are the same. -/
structure ChangesOnly (footprint : Footprint) (before after : Machine β) : Prop where
  cpu : footprint.Covers before.cpu after.cpu
  bus : footprint.Writes before.bus after.bus
  contents_eq [ByteMemory β] {address : UInt32} :
    (∀ start ∈ footprint.longs, ¬ Within start 4 address) →
    ByteMemory.contents after.bus address = ByteMemory.contents before.bus address

theorem changesOnly_of_completed {before after : Machine β} {instruction : Instruction}
    (h : Exec.Completed before after instruction) :
    ChangesOnly (instruction.footprint before.cpu) before after := by
  have hbus := Footprint.writes_of_completed h
  refine ⟨Footprint.covers_of_completed h, hbus, fun hout => ?_⟩
  generalize after.bus = bus at hbus ⊢
  cases hbus with
  | stays _ hlongs => exact hlongs.contents_eq hout
  | branches => rw [ByteMemory.traceBranch_eq]

omit [Bus β] in
/-- A footprint does not depend on where the instruction stream is. -/
theorem footprint_withStream (machine : Machine β) (stream : InstructionStream)
    (instruction : Instruction) :
    instruction.footprint (machine.withStream stream).cpu
      = instruction.footprint machine.cpu := by
  have hdestination (width : Width) (destination : Destination) :
      destination.footprint width (machine.withStream stream).cpu
        = destination.footprint width machine.cpu := by
    cases destination with
    | dataRegister n => rfl
    | memory place =>
      rw [Destination.footprint, (machine.address_withStream stream width place).1]
      rfl
  cases instruction with
  | store | storeControl | saveFrame => exact hdestination _ _
  | _ => rfl

/-- A step stops the processor if and only if it ends in a fault; nothing lets a stopped one run. -/
theorem stopped_step (machine : Machine β) :
    machine.step.machine.cpu.stopped = (machine.cpu.stopped || machine.step.fault.isSome) := by
  have hsteps := machine.steps_step
  generalize machine.step = outcome at hsteps
  cases hsteps with
  | unfetched | refused => exact (Bool.or_true _).symm
  | @completed instruction stream last hfetch hexecute =>
    have hcovers := Footprint.covers_of_completed (Exec.completed_execute hexecute)
    show last.cpu.stopped = (machine.cpu.stopped || false)
    rw [hcovers.stopped_eq, Bool.or_false]
    rfl

/-- A step without a fault changes nothing but what its instruction names. -/
theorem changesOnly_step (h : machine.step.fault = none) :
    ∃ opcode second instruction, machine.HasWords opcode second ∧
      machine.fetched = some instruction ∧ Encodes opcode second instruction ∧
      ChangesOnly (instruction.footprint machine.cpu) machine machine.step.machine := by
  obtain ⟨instruction, stream, hfetch, hcompleted⟩ := completed_step h
  obtain ⟨opcode, second, hwords, hencodes, -⟩ := encoded_fetch hfetch
  have hchanges := changesOnly_of_completed hcompleted
  rw [footprint_withStream] at hchanges
  exact ⟨opcode, second, instruction, hwords, fetched_eq_some_iff.mpr ⟨stream, hfetch⟩, hencodes,
    { hchanges.cpu with }, hchanges.bus, hchanges.contents_eq⟩

/-- A machine about to push FP0 as a double on the stack at `2000`. -/
def aboutToPushDouble : Machine FlatMemory where
  cpu := { pc := 0x400, address := Bank.fill 0x2000, fp := Bank.fill ⟨0x3FF8000000000000⟩ }
  bus := .ofProgram 0x10000 0x400 [0xF2, 0x27, 0x74, 0x00]

/-- Eight bytes change, and the stack pointer. -/
theorem changesOnly_step_push :
    let push := Instruction.store .double 0 (.memory (.preDecrement 7))
    aboutToPushDouble.step.fault = none ∧
      (push.footprint aboutToPushDouble.cpu).longs = [0x1FF8, 0x1FFC] ∧
      ChangesOnly (push.footprint aboutToPushDouble.cpu) aboutToPushDouble
        aboutToPushDouble.step.machine := by
  have hfault : aboutToPushDouble.step.fault = none := by decide +kernel
  have hfetched : aboutToPushDouble.fetched
      = some (.store .double 0 (.memory (.preDecrement 7))) := by
    decide +kernel
  obtain ⟨_, _, instruction, -, hinstruction, -, hchanges⟩ := changesOnly_step hfault
  obtain rfl := Option.some.inj (hfetched.symm.trans hinstruction)
  exact ⟨hfault, by decide, hchanges⟩

end Machine

end M68Fpu
