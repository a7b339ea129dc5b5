import M68Fpu.Proofs.AddressingRules
import M68Fpu.Proofs.Completion
import M68Fpu.Proofs.EncodedInstruction
import M68Fpu.Proofs.Memory.Operands

/-!
# Operands are transferred by the rules

The operand of an access is where the rule of its addressing mode says, and is read from there or
written to there as a whole (`Machine.transfers_by_rule`). What is read are the low bits of a data
register, the number in memory or the immediate data; what is written is a data register or the
number in memory. Besides the program counter and the register that a mode increments or decrements,
only the destination changes.

Both transfers are what instructions consist of: one that reads its source is a load followed by the
use of the number (`Exec.perform_load`), one that writes its destination a save
(`Exec.perform_save`).
-/

namespace M68Fpu

/-! ## What a location holds -/

section Located

variable {β : Type} [Bus β]

/-- The immediate data at an address. A byte is the low byte of a word. -/
def Bus.readImmediate (bus : β) (address : UInt32) : Width → Option UInt64
  | .byte => (Bus.read16 bus address).map fun word => word.toUInt8.toUInt64
  | width => Bus.readOperand bus width address

/-- The operand of a width at a location, unless the bus refuses a part of it. Immediate data are at
`next`. -/
def Located.operand (machine : Machine β) (next : UInt32) (width : Width) :
    Located → Option UInt64
  | .dataRegister n => some (UInt64.ofNat ((machine.cpu.data.get n).toNat % 2 ^ width.bits))
  | .memory address => Bus.readOperand machine.bus width address
  | .immediate => Bus.readImmediate machine.bus next width

/-- The bytes that the operand takes in the instruction stream. -/
def Located.dataBytes (width : Width) : Located → Nat
  | .immediate => width.immediateBytes
  | _ => 0

/-- The bus after a write to a location, unless it refuses a part of it. -/
def Located.store (bus : β) (width : Width) (value : UInt64) : Located → Option β
  | .dataRegister _ => some bus
  | .memory address => Bus.writeLongs bus address (width.longs value)
  | .immediate => none

/-- The data registers after a write to a location. -/
def Located.stored (data : Bank UInt32) (value : UInt64) : Located → Bank UInt32
  | .dataRegister n => data.put n value.toUInt32
  | _ => data

end Located

/-- The processor behind some bytes of its instruction stream, with other address registers. -/
def Cpu.behind (cpu : Cpu) (bytes : Nat) (address : Bank UInt32) : Cpu :=
  { cpu with pc := cpu.pc + UInt32.ofNat bytes, address }

/-! ## Low bits -/

/-- A format looks at the low bits of its width and at no others. -/
theorem LoadFormat.value_congr (format : LoadFormat) {first second : UInt64}
    (h : first.toNat % 2 ^ format.width.bits = second.toNat % 2 ^ format.width.bits) :
    format.value first = format.value second := by
  cases format with
  | byteInteger =>
    have hlow : first.toUInt8 = second.toUInt8 := by
      apply UInt8.toNat_inj.mp
      rw [first.toNat_toUInt8, second.toNat_toUInt8]
      exact h
    rw [value, value, hlow]
  | wordInteger =>
    have hlow : first.toUInt16 = second.toUInt16 := by
      apply UInt16.toNat_inj.mp
      rw [first.toNat_toUInt16, second.toNat_toUInt16]
      exact h
    rw [value, value, hlow]
  | longInteger | single =>
    have hlow : first.toUInt32 = second.toUInt32 := by
      apply UInt32.toNat_inj.mp
      rw [first.toNat_toUInt32, second.toNat_toUInt32]
      exact h
    rw [value, value, hlow]
  | double =>
    have hfirst : first.toNat % 2 ^ 64 = first.toNat := Nat.mod_eq_of_lt first.toNat_lt
    have hsecond : second.toNat % 2 ^ 64 = second.toNat := Nat.mod_eq_of_lt second.toNat_lt
    have hall : first = second := UInt64.toNat_inj.mp (hfirst ▸ hsecond ▸ h)
    rw [hall]

namespace Bus

variable {β : Type} [Bus β] {bus : β} {address : UInt32} {width : Width} {value : UInt64}

/-- A number that is read fits its width. -/
theorem readOperand_lt (h : readOperand bus width address = some value) :
    value.toNat < 2 ^ width.bits := by
  have hlt := value.toNat_lt
  cases width with
  | byte =>
    obtain ⟨byte, -, rfl⟩ := Option.map_eq_some_iff.mp h
    rw [UInt8.toNat_toUInt64]
    exact byte.toNat_lt
  | word =>
    obtain ⟨word, -, rfl⟩ := Option.map_eq_some_iff.mp h
    rw [UInt16.toNat_toUInt64]
    exact word.toNat_lt
  | long =>
    obtain ⟨long, -, rfl⟩ := Option.map_eq_some_iff.mp h
    rw [UInt32.toNat_toUInt64]
    exact long.toNat_lt
  | quad => exact hlt
  | extended => exact Nat.lt_trans hlt (by decide)

theorem readImmediate_lt (h : readImmediate bus address width = some value) :
    value.toNat < 2 ^ width.bits := by
  cases width with
  | byte =>
    obtain ⟨word, -, rfl⟩ := Option.map_eq_some_iff.mp h
    rw [UInt8.toNat_toUInt64]
    exact word.toUInt8.toNat_lt
  | word | long | quad | extended => exact readOperand_lt h

end Bus

/-! ## Immediate data -/

namespace Fetch

variable {β : Type} [Bus β] {bus : β} {stream : InstructionStream} {width : Width}

theorem immediate_of_read {value : UInt64}
    (h : Bus.readImmediate bus stream.pc width = some value) :
    ∃ last, immediate width bus stream = .ok value last ∧
      last.pc = stream.pc + UInt32.ofNat width.immediateBytes ∧ last.ir = stream.ir := by
  cases width with
  | byte | word =>
    obtain ⟨word, hread, rfl⟩ := Option.map_eq_some_iff.mp h
    refine ⟨stream.afterWord word, ?_, rfl, rfl⟩
    rw [immediate, bind_apply, word_of_read hread]
    rfl
  | long =>
    obtain ⟨long, hread, rfl⟩ := Option.map_eq_some_iff.mp h
    refine ⟨stream.afterLong long, ?_, rfl, rfl⟩
    rw [immediate, bind_apply, long_of_read hread]
    rfl
  | quad | extended =>
    obtain ⟨high, hhigh, h⟩ := Option.bind_eq_some_iff.mp h
    obtain ⟨low, hlow, h⟩ := Option.bind_eq_some_iff.mp h
    cases h
    have hlow : Bus.read32 bus (stream.afterLong high).pc = some low := hlow
    refine ⟨(stream.afterLong high).afterLong low, ?_, UInt32.add_assoc _ _ _, rfl⟩
    rw [immediate, bind_apply, long_of_read hhigh]
    dsimp only
    rw [bind_apply, long_of_read hlow]
    rfl

theorem immediate_of_refusal (h : Bus.readImmediate bus stream.pc width = none) :
    ∃ last, immediate width bus stream = .error .busError last := by
  cases width with
  | byte | word =>
    have hread := Option.map_eq_none_iff.mp h
    exact ⟨_, by rw [immediate, bind_apply, word_of_refusal hread]⟩
  | long =>
    have hread := Option.map_eq_none_iff.mp h
    exact ⟨_, by rw [immediate, bind_apply, long_of_refusal hread]⟩
  | quad | extended =>
    cases hhigh : Bus.read32 bus stream.pc with
    | none => exact ⟨_, by rw [immediate, bind_apply, long_of_refusal hhigh]⟩
    | some high =>
      have hlow : Bus.read32 bus (stream.afterLong high).pc = none := by
        cases hread : Bus.read32 bus (stream.pc + 4) with
        | none => exact hread
        | some low =>
          simp only [Bus.readImmediate, Bus.readOperand, hhigh, hread] at h
          cases h
      refine ⟨(stream.afterLong high).afterRefusal .long, ?_⟩
      rw [immediate, bind_apply, long_of_read hhigh]
      dsimp only
      rw [bind_apply, long_of_refusal hlow]

end Fetch

/-! ## Located operands -/

namespace Fetch

variable {β : Type} [Bus β] {machine : Machine β} {stream last : InstructionStream}
  {location : Location} {width : Width}

/-- A source that has been located is fetched and has a value if the bus has the operand, which is
what the width leaves of the value: a data register comes whole. -/
theorem operand_of_location {operand : UInt64}
    (h : Fetch.location ⟨width, .read⟩ machine.bus stream = .ok location last)
    (hoperand : (location.located width machine.cpu).operand machine last.pc width = some operand) :
    ∃ source behind value, Fetch.operand width machine.bus stream = .ok source behind ∧
      source.value machine.bus machine.cpu width = some value ∧
      value.toNat % 2 ^ width.bits = operand.toNat ∧
      (source.moved width machine.cpu).address = location.moved width machine.cpu ∧
      behind.pc
        = last.pc + UInt32.ofNat ((location.located width machine.cpu).dataBytes width) ∧
      behind.ir = last.ir := by
  -- Only immediate data lie behind the extension words.
  have hstay : last.pc = last.pc + UInt32.ofNat 0 := (UInt32.add_zero _).symm
  cases location with
  | dataRegister n =>
    have hdata := (machine.cpu.data.get n).toNat_lt
    have hle := Nat.mod_le (machine.cpu.data.get n).toNat (2 ^ width.bits)
    have hlt : (machine.cpu.data.get n).toNat % 2 ^ width.bits < 2 ^ 64 := by omega
    obtain rfl := Option.some.inj hoperand
    refine ⟨.dataRegister n, last, _, ?_, rfl, ?_, rfl, hstay, rfl⟩
    · rw [Fetch.operand, bind_apply, h]
      rfl
    · rw [UInt32.toNat_toUInt64, UInt64.toNat_ofNat', Nat.mod_eq_of_lt hlt]
  | memory place =>
    refine ⟨.memory place, last, operand, ?_, hoperand,
      Nat.mod_eq_of_lt (Bus.readOperand_lt hoperand), rfl, hstay, rfl⟩
    rw [Fetch.operand, bind_apply, h]
    rfl
  | immediate =>
    obtain ⟨behind, himmediate, hpc, hir⟩ := immediate_of_read hoperand
    refine ⟨.immediate operand, behind, operand, ?_, rfl,
      Nat.mod_eq_of_lt (Bus.readImmediate_lt hoperand), rfl, hpc, hir⟩
    rw [Fetch.operand, bind_apply, h]
    dsimp only
    rw [bind_apply, himmediate]
    rfl

/-- If the bus does not have the operand, immediate data are refused to the fetch and a place in
memory to the read behind it. -/
theorem operand_of_refusal
    (h : Fetch.location ⟨width, .read⟩ machine.bus stream = .ok location last)
    (hnone : (location.located width machine.cpu).operand machine last.pc width = none) :
    (∃ behind, Fetch.operand width machine.bus stream = .error .busError behind) ∨
      ∃ source behind, Fetch.operand width machine.bus stream = .ok source behind ∧
        source.value machine.bus machine.cpu width = none := by
  cases location with
  | dataRegister n => cases hnone
  | memory place =>
    refine .inr ⟨.memory place, last, ?_, hnone⟩
    rw [Fetch.operand, bind_apply, h]
    rfl
  | immediate =>
    obtain ⟨behind, himmediate⟩ := immediate_of_refusal hnone
    refine .inl ⟨behind, ?_⟩
    rw [Fetch.operand, bind_apply, h]
    dsimp only
    rw [bind_apply, himmediate]

/-- A destination that has been located is fetched, and writes go where it is. -/
theorem destination_of_location
    (h : Fetch.location ⟨width, .write⟩ machine.bus stream = .ok location last)
    (hlocation : location ≠ .immediate) :
    ∃ destination, Fetch.destination width machine.bus stream = .ok destination last ∧
      ∀ (bus : β) (cpu : Cpu) (value : UInt64),
        destination.store bus cpu width value
          = (location.located width cpu).store bus width value ∧
        destination.written width value cpu = { cpu with
          address := location.moved width cpu
          data := (location.located width cpu).stored cpu.data value } := by
  cases location with
  | immediate => exact absurd rfl hlocation
  | dataRegister n =>
    refine ⟨.dataRegister n, ?_, fun bus cpu value => ⟨rfl, rfl⟩⟩
    rw [Fetch.destination, bind_apply, h]
    rfl
  | memory place =>
    refine ⟨.memory place, ?_, fun bus cpu value => ⟨rfl, place.moved_eq width cpu⟩⟩
    rw [Fetch.destination, bind_apply, h]
    rfl

end Fetch

/-! ## Transfers -/

namespace Exec

variable {β : Type} [Bus β] {machine : Machine β} {start : UInt32} {width : Width}
  {last : InstructionStream}

/-- Fetches a source operand and reads it. -/
def load (start : UInt32) (width : Width) : Exec β UInt64 := do
  readOperand width (← fetching start (Fetch.operand width))

/-- Fetches a destination and writes to it. -/
def save (start : UInt32) (width : Width) (value : UInt64) : Exec β Unit := do
  writeDestination width value (← fetching start (Fetch.destination width))

theorem readMemory_of_readOperand {address : UInt32} {value : UInt64}
    (h : Bus.readOperand machine.bus width address = some value) :
    ∃ after, readMemory width address machine = .ok value after := by
  cases hread : readMemory width address machine with
  | ok answer after =>
    obtain ⟨hanswer, -⟩ := readMemory_ok hread
    rw [h] at hanswer
    cases hanswer
    exact ⟨after, rfl⟩
  | error fault after =>
    -- A read ends in a fault only if the bus refuses a part of the operand.
    have hnone := (readMemory_error hread).1
    rw [h] at hnone
    cases hnone

/-- A source that has a value is read. -/
theorem readOperand_of_value {operand : Operand} {value : UInt64}
    (h : operand.value machine.bus machine.cpu width = some value) :
    ∃ after, readOperand width operand machine = .ok value after := by
  cases operand with
  | dataRegister n => exact ⟨machine, by obtain rfl := Option.some.inj h; rfl⟩
  | immediate value => exact ⟨machine, by obtain rfl := Option.some.inj h; rfl⟩
  | memory place =>
    have hoperand : Bus.readOperand (machine.mapCpu fun cpu => place.moved width cpu).bus width
        (place.address width machine.cpu) = some value := h
    obtain ⟨after, hread⟩ := readMemory_of_readOperand hoperand
    exact ⟨after, by rw [readOperand, address_bind, hread]⟩

theorem writeLongs_of_accepted {address : UInt32} {values : List UInt32} {after : β}
    (h : Bus.writeLongs machine.bus address values = some after) :
    ∃ written, writeLongs address values machine = .ok () written := by
  induction values generalizing machine address with
  | nil => exact ⟨machine, rfl⟩
  | cons value rest ih =>
    obtain ⟨middle, hwrite, hrest⟩ := Option.bind_eq_some_iff.mp h
    have hfirst := writeLong_eq_ok_iff.mpr ⟨middle, hwrite, rfl⟩
    rw [writeLongs, bind_of_ok hfirst]
    exact ih hrest

/-- A destination that the bus accepts is written. -/
theorem writeDestination_of_store (hwide : 4 ≤ width.bytes) {destination : Destination}
    {value : UInt64} {after : β}
    (h : destination.store machine.bus machine.cpu width value = some after) :
    ∃ written, writeDestination width value destination machine = .ok () written := by
  cases destination with
  | dataRegister n => exact ⟨_, rfl⟩
  | memory place =>
    have hlongs : Bus.writeLongs (machine.mapCpu fun cpu => place.moved width cpu).bus
        (place.address width machine.cpu) (width.longs value) = some after := h
    obtain ⟨written, hwrite⟩ := writeLongs_of_accepted hlongs
    exact ⟨written, by rw [writeDestination, address_bind, writeMemory_eq_writeLongs hwide, hwrite]⟩

theorem load_of_operand {operand : Operand}
    (h : Fetch.operand width machine.bus (machine.stream start) = .ok operand last) :
    load start width machine = readOperand width operand (machine.withStream last) := by
  unfold load
  rw [bind_of_ok (fetching_of_ok h)]

theorem save_of_destination {destination : Destination} {value : UInt64}
    (h : Fetch.destination width machine.bus (machine.stream start) = .ok destination last) :
    save start width value machine =
      writeDestination width value destination (machine.withStream last) := by
  unfold save
  rw [bind_of_ok (fetching_of_ok h)]

/-- A source that has been located is read. -/
theorem load_of_location {location : Fetch.Location} {operand : UInt64}
    (h : Fetch.location ⟨width, .read⟩ machine.bus (machine.stream start) = .ok location last)
    (hir : last.ir = machine.cpu.ir)
    (hoperand : (location.located width machine.cpu).operand machine last.pc width = some operand) :
    ∃ value after, load start width machine = .ok value after ∧
      value.toNat % 2 ^ width.bits = operand.toNat ∧ after.bus = machine.bus ∧
      after.cpu = { machine.cpu with
        pc := last.pc + UInt32.ofNat ((location.located width machine.cpu).dataBytes width)
        address := location.moved width machine.cpu } := by
  obtain ⟨source, behind, value, hfetch, hvalue, hlow, hmoved, hpc, hbehind⟩ :=
    Fetch.operand_of_location h hoperand
  have hvalue : source.value (machine.withStream behind).bus (machine.withStream behind).cpu width
      = some value := (source.value_withStream machine behind width).trans hvalue
  obtain ⟨after, hread⟩ := readOperand_of_value hvalue
  obtain ⟨-, hbus, hcpu⟩ := readOperand_ok hread
  refine ⟨value, after, (load_of_operand hfetch).trans hread, hlow, hbus, ?_⟩
  rw [hcpu, source.moved_eq, source.address_moved_withStream, hmoved,
    machine.cpu_withStream (hbehind.trans hir), hpc]

/-- A destination that has been located is written. -/
theorem save_of_location (hwide : 4 ≤ width.bytes) {location : Fetch.Location} {value : UInt64}
    {after : β}
    (h : Fetch.location ⟨width, .write⟩ machine.bus (machine.stream start) = .ok location last)
    (hir : last.ir = machine.cpu.ir)
    (hstore : (location.located width machine.cpu).store machine.bus width value = some after) :
    ∃ written, save start width value machine = .ok () written ∧ written.bus = after ∧
      written.cpu = { machine.cpu with
        pc := last.pc
        address := location.moved width machine.cpu
        data := (location.located width machine.cpu).stored machine.cpu.data value } := by
  have hlocation : location ≠ .immediate := by
    rintro rfl
    cases hstore
  obtain ⟨destination, hfetch, hwrites⟩ := Fetch.destination_of_location h hlocation
  obtain ⟨hlocated, hmoved⟩ := located_withStream location width machine last
  obtain ⟨hwrite, hwritten⟩ :=
    hwrites (machine.withStream last).bus (machine.withStream last).cpu value
  rw [hlocated] at hwrite
  have hwrite := hwrite.trans hstore
  obtain ⟨written, hsave⟩ := writeDestination_of_store hwide hwrite
  obtain ⟨hbus, hcpu⟩ := writeDestination_ok hwide hsave
  refine ⟨written, (save_of_destination hfetch).trans hsave,
    Option.some.inj (hbus.symm.trans hwrite), ?_⟩
  rw [hcpu, hwritten, hlocated, hmoved, machine.cpu_withStream hir]

end Exec

/-! ## Instructions -/

namespace Exec

variable {β α γ : Type} [Bus β]

theorem fetching_map (start : UInt32) (change : α → γ) (fetch : Fetch β α) :
    fetching start (change <$> fetch) = change <$> fetching start fetch := by
  funext machine
  show _ = EStateM.map change (fetching start fetch) machine
  have hmap : (change <$> fetch) machine.bus (machine.stream start)
      = EStateM.map change (fetch machine.bus) (machine.stream start) := rfl
  unfold fetching
  rw [hmap]
  unfold EStateM.map
  dsimp only
  cases fetch machine.bus (machine.stream start) <;> rfl

/-- An instruction that reads its source first is a load and what it does with the number. -/
theorem perform_load {instruction : Operand → Instruction} {next : UInt64 → Exec β Unit}
    {width : Width}
    (hexecute : ∀ operand, execute (instruction operand) = readOperand width operand >>= next)
    (machine : Machine β) (start : UInt32) :
    machine.perform start (instruction <$> Fetch.operand width) =
      (load start width >>= next).outcome machine := by
  simp only [perform_eq, fetching_map, load, bind_assoc, bind_map_left, hexecute]

/-- An instruction that writes its destination first is a save and what it does then. -/
theorem perform_save {instruction : Destination → Instruction} {next : Exec β Unit}
    {width : Width} {value : UInt64}
    (hexecute : ∀ destination, execute (instruction destination) =
      writeDestination width value destination >>= fun _ => next)
    (machine : Machine β) (start : UInt32) :
    machine.perform start (instruction <$> Fetch.destination width) =
      (save start width value >>= fun _ => next).outcome machine := by
  simp only [perform_eq, fetching_map, save, bind_assoc, bind_map_left, hexecute]

end Exec

section StateFrames

variable {β : Type} [Bus β] {machine : Machine β}

theorem Fetch.stateFrame_apply (bus : β) (stream : InstructionStream) {operation : StateFrameOp}
    (hoperation : StateFrameOp.decode stream.ir = some operation) :
    stateFrame bus stream =
      (match operation with
        | .save => Instruction.saveFrame <$> destination .long
        | .restore => Instruction.restoreFrame <$> operand .long : Fetch β Instruction)
      bus stream := by
  rw [stateFrame, bind_apply]
  show (require (StateFrameOp.decode stream.ir) _ >>= _ : Fetch β Instruction) bus stream = _
  rw [bind_apply, require_of_some hoperation]
  cases operation <;> rfl

/-- An instruction depends on what a fetch comes to at its own stream only. -/
theorem Machine.perform_congr {start : UInt32} {first second : Fetch β Instruction}
    (h : first machine.bus (machine.stream start) = second machine.bus (machine.stream start)) :
    machine.perform start first = machine.perform start second := by
  unfold perform
  rw [h]

/-- A save of the state frame writes a long zero. -/
theorem Machine.finishStateFrame_of_save
    (hoperation : StateFrameOp.decode machine.cpu.ir = some .save) :
    machine.finishStateFrame = (Exec.save (machine.cpu.pc - 2) .long 0).outcome machine := by
  have hexecute (destination : Destination) : (Exec.execute (.saveFrame destination) : Exec β Unit)
      = Exec.writeDestination .long 0 destination >>= fun _ => pure () :=
    bind_pure_unit.symm
  have hperform := Exec.perform_save hexecute machine (machine.cpu.pc - 2)
  rw [bind_pure_unit] at hperform
  have hfetch := Fetch.stateFrame_apply machine.bus (machine.stream (machine.cpu.pc - 2)) hoperation
  exact (perform_congr hfetch).trans hperform

/-- A restore of the state frame reads a long and discards it. -/
theorem Machine.finishStateFrame_of_restore
    (hoperation : StateFrameOp.decode machine.cpu.ir = some .restore) :
    machine.finishStateFrame =
      (discard (Exec.load (machine.cpu.pc - 2) .long)).outcome machine := by
  have hexecute (operand : Operand) : (Exec.execute (.restoreFrame operand) : Exec β Unit)
      = Exec.readOperand .long operand >>= fun _ => pure () := rfl
  have hperform := Exec.perform_load hexecute machine (machine.cpu.pc - 2)
  have hfetch := Fetch.stateFrame_apply machine.bus (machine.stream (machine.cpu.pc - 2)) hoperation
  exact (perform_congr hfetch).trans hperform

end StateFrames

/-! ## Accesses -/

namespace Machine

variable {β : Type} [Bus β]

/-- How a machine accesses an operand that is `located` somewhere by `words`, the extension words at
its program counter, if `addresses` are the address registers afterwards. -/
structure Transfers (machine : Machine β) (start : UInt32) (access : Access) (words : List UInt16)
    (located : Located) (addresses : Bank UInt32) : Prop where
  /-- The machine finds the operand there. -/
  resolves : ∃ last, Exec.resolve start access machine = .ok located last ∧
    last.bus = machine.bus ∧ last.cpu = machine.cpu.behind (2 * words.length) addresses
  /-- What it reads is the operand, as far as the bits of the width and every format of the width
  go. -/
  reads : access.direction = .read → ∀ operand,
    located.operand machine (machine.cpu.pc + UInt32.ofNat (2 * words.length)) access.width
      = some operand →
    ∃ value last, Exec.load start access.width machine = .ok value last ∧
      value.toNat % 2 ^ access.width.bits = operand.toNat ∧
      (∀ format : LoadFormat, format.width = access.width →
        format.value value = format.value operand) ∧
      last.bus = machine.bus ∧
      last.cpu = machine.cpu.behind (2 * words.length + located.dataBytes access.width) addresses
  /-- What it writes is the operand. Nothing narrower than a long is ever written. -/
  writes : access.direction = .write → 4 ≤ access.width.bytes → ∀ value after,
    located.store machine.bus access.width value = some after →
    ∃ last, Exec.save start access.width value machine = .ok () last ∧ last.bus = after ∧
      last.cpu = { machine.cpu.behind (2 * words.length) addresses with
        data := located.stored machine.cpu.data value }
  /-- On a bus that is memory, an operand is a big-endian number. -/
  read_bytes_eq : ∀ (memory : ByteMemory β) (address : UInt32) (operand : UInt64),
    Bus.readOperand machine.bus access.width address = some operand →
    operand.toNat = BigEndian.decode
      ((memory.contents machine.bus).bytes address access.width.numberBytes)
  /-- So is an operand that has been written, and no other byte has changed. -/
  written_bytes_eq : 4 ≤ access.width.bytes →
    ∀ (memory : ByteMemory β) (address : UInt32) (value : UInt64) (after : β),
    Bus.writeLongs machine.bus address (access.width.longs value) = some after →
    memory.contents after =
      (memory.contents machine.bus).overwrite address (access.width.image value)

/-- Every access that may use its addressing mode follows the rule of the mode. -/
theorem transfers_by_rule (machine : Machine β) (start : UInt32) (access : Access)
    {place : EffectiveAddress} {words : List UInt16}
    (hplace : EffectiveAddress.decode (addressField machine.cpu.ir) = some place)
    (hsupports : access.supports place = true)
    (hwords : Bus.readWords machine.bus machine.cpu.pc place.extensionWords = some words)
    (hformat : place.HasKnownFormat words) :
    ∃ located addresses, place.Rule access.width machine.cpu words located addresses ∧
      machine.Transfers start access words located addresses := by
  have hlocation : ∃ location last,
      Fetch.location access machine.bus (machine.stream start) = .ok location last ∧
      last.pc = machine.cpu.pc + UInt32.ofNat (2 * words.length) ∧ last.ir = machine.cpu.ir ∧
      location.Follows access.width machine.cpu.pc place words :=
    Fetch.location_of_words hplace hsupports hwords hformat
  obtain ⟨location, last, hlocation, hpc, hir, hfollows⟩ := hlocation
  obtain ⟨width, direction⟩ := access
  refine ⟨_, _, hfollows machine.cpu rfl, ?_, ?_, ?_, ?_, ?_⟩
  · obtain ⟨after, hresolve, hbus, hcpu⟩ := Exec.resolve_of_location hlocation hir
    rw [hpc] at hcpu
    exact ⟨after, hresolve, hbus, hcpu⟩
  · rintro rfl operand hoperand
    rw [← hpc] at hoperand
    obtain ⟨value, after, hload, hvalue, hbus, hcpu⟩ := Exec.load_of_location hlocation hir hoperand
    refine ⟨value, after, hload, hvalue, fun format hformat => ?_, hbus, ?_⟩
    · refine format.value_congr ?_
      obtain rfl := hformat
      rw [hvalue, ← hvalue, Nat.mod_mod]
    · rw [hcpu, hpc, UInt32.add_assoc, ← UInt32.ofNat_add]
      rfl
  · rintro rfl hwide value after hstore
    obtain ⟨written, hsave, hbus, hcpu⟩ := Exec.save_of_location hwide hlocation hir hstore
    rw [hpc] at hcpu
    exact ⟨written, hsave, hbus, hcpu⟩
  · intro memory address operand hread
    exact ByteMemory.readOperand_eq hread
  · intro hwide memory address value after hwrite
    exact ByteMemory.writeLongs_eq hwide hwrite

/-- A machine about to use `(-4,A0,D1.W*8)` as a long. -/
def aboutToIndex : Machine SparseMemory where
  cpu := { pc := 0x404, ir := 0xF230, address := Bank.fill 0xFFFFFFFF, data := Bank.fill 0x00010003 }
  bus := ByteAddressed.storeBytes {} 0x404 [0x16, 0xFC]

/-- The low word of D1 counts and the sum wraps around. -/
theorem transfers_by_rule_index :
    aboutToIndex.Transfers 0x400 ⟨.long, .read⟩ [0x16FC] (.memory 0x13)
      aboutToIndex.cpu.address := by
  have hplace : EffectiveAddress.decode (addressField aboutToIndex.cpu.ir) = some (.indexed 0) := by
    decide
  have hwords : Bus.readWords aboutToIndex.bus 0x404 1 = some [0x16FC] := by decide +kernel
  obtain ⟨located, addresses, hrule, htransfers⟩ :=
    transfers_by_rule aboutToIndex 0x400 ⟨.long, .read⟩ hplace (by decide) hwords rfl
  cases hrule with
  | indexed n extension hbrief haddress =>
    have hsum : UInt32.ofInt ((aboutToIndex.cpu.address.get 0).toNat
        + indexSum aboutToIndex.cpu 0x16FC) = 0x13 := by
      decide +kernel
    rw [haddress, hsum] at htransfers
    exact htransfers

end Machine

end M68Fpu
