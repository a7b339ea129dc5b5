import M68Fpu.Proofs.Debug.RegisterImage

/-!
# Single registers are parts of the image

A debugger that knows the number of a register knows where it is in the image
(`RegisterId.offset_of_ofNat?`). Reading the register gives the bytes there, and writing it is
writing the image with those bytes replaced (`Target.singleRegisters`).

Both ways of writing lead to the same target because a register that is put into the file of a
processor is put into the processor (`Target.applyTo_put`): what a file has and a processor has not,
the status register, is dropped by both.
-/

namespace M68Fpu

namespace RegisterId

/-- The numbers of registers. -/
theorem isSome_ofNat? (number : Nat) : (ofNat? number).isSome = true ↔ number ≤ 28 := by
  unfold ofNat?
  split_ifs <;> simp <;> omega

/-- Where the register of a number is in the image. -/
def imageOffset (number : Nat) : Nat :=
  if number < 18 then 4 * number
  else if number < 26 then 72 + 8 * (number - 18)
  else 136 + 4 * (number - 26)

theorem offset_of_ofNat? {number : Nat} {id : RegisterId} (h : ofNat? number = some id) :
    id.offset = imageOffset number := by
  unfold ofNat? at h
  split_ifs at h <;> obtain rfl := Option.some.inj h <;> simp only [offset, imageOffset] <;>
    split_ifs <;> omega

end RegisterId

namespace Target

theorem registerValue_eq (cpu : Cpu) (id : RegisterId) :
    registerValue cpu id = (RegisterFile.ofCpu cpu).get id := by
  cases id <;> rfl

theorem applyTo_put (cpu : Cpu) (id : RegisterId) (value : Nat) :
    ((RegisterFile.ofCpu cpu).put id value).applyTo cpu = withRegisterValue cpu value id := by
  cases id <;> rfl

/-! ## Reading -/

theorem readRegister_eq (target : Target) (id : RegisterId) {buffer : List UInt8}
    (h : id.size ≤ buffer.length) :
    target.readRegister id buffer =
      some (id.slice target.registers.toBytes ++ buffer.drop id.size) := by
  have hslice := target.registers.slice_toBytes [] id
  rw [List.append_nil] at hslice
  rw [readRegister, if_neg (Nat.not_lt_of_le h), registerValue_eq, hslice]
  rfl

/-! ## Writing -/

theorem writeRegister_eq (target : Target) (id : RegisterId) {bytes : List UInt8}
    (h : id.size ≤ bytes.length) :
    target.writeRegister id bytes = some (target.setRegisters
      (target.registers.put id (LittleEndian.decode (bytes.take id.size)))) := by
  rw [writeRegister, if_neg (Nat.not_lt_of_le h)]
  refine congrArg some ?_
  show target.mapCpu _ = target.mapCpu _
  unfold mapCpu Machine.mapCpu
  rw [registers, applyTo_put]

/-- Writing one register is writing the image with the bytes at its place replaced. -/
theorem writeRegister_eq_writeImage (target : Target) (id : RegisterId) {bytes : List UInt8}
    (h : id.size ≤ bytes.length) :
    target.writeRegister id bytes =
      target.writeImage (splice target.registers.toBytes id.offset (bytes.take id.size)) := by
  have hencode := LittleEndian.encode_decode (bytes.take id.size)
  rw [List.length_take, Nat.min_eq_left h] at hencode
  have himage := target.registers.toBytes_put id (LittleEndian.decode (bytes.take id.size))
  rw [hencode] at himage
  rw [writeRegister_eq target id h, writeImage, ← himage, RegisterFile.ofBytes?_toBytes]
  rfl

/-- A target has no status register to write. -/
theorem writeRegister_sr (target : Target) {bytes : List UInt8}
    (h : RegisterId.sr.size ≤ bytes.length) :
    target.writeRegister .sr bytes = some target := by
  rw [writeRegister, if_neg (Nat.not_lt_of_le h)]
  rfl

/-- What a debugger does not see of a target. -/
structure SameHidden (before after : Target) : Prop where
  ir_eq : after.computer.cpu.ir = before.computer.cpu.ir
  cycles_eq : after.computer.cpu.cycles = before.computer.cpu.cycles
  stopped_eq : after.computer.cpu.stopped = before.computer.cpu.stopped
  bus_eq : after.computer.bus = before.computer.bus
  events_eq : after.computer.events = before.computer.events
  breakpoints_eq : after.breakpoints = before.breakpoints

theorem sameHidden_setRegisters (target : Target) (file : RegisterFile) :
    target.SameHidden (target.setRegisters file) :=
  ⟨rfl, rfl, rfl, rfl, rfl, rfl⟩

theorem sameHidden_of_writeImage {before after : Target} {bytes : List UInt8}
    (h : before.writeImage bytes = some after) : before.SameHidden after := by
  obtain ⟨file, -, rfl⟩ := Option.map_eq_some_iff.mp h
  exact before.sameHidden_setRegisters file

/-! ## Both ways of access agree -/

/-- Access to a register as access to a part of the image, from `start` on. -/
structure AccessesPart (target : Target) (id : RegisterId) (start : Nat) : Prop where
  /-- Reading fills the front of a buffer and leaves the rest of it. -/
  read : ∀ buffer : List UInt8, id.size ≤ buffer.length →
    target.readRegister id buffer =
      some ((target.registers.toBytes.drop start).take id.size ++ buffer.drop id.size)
  /-- Writing takes the front of a value and leaves what a debugger does not see. -/
  write : ∀ value : List UInt8, id.size ≤ value.length →
    ∃ after, target.writeRegister id value = some after ∧
      target.writeImage (splice target.registers.toBytes start (value.take id.size)) = some after ∧
      target.SameHidden after
  rejected : ∀ value : List UInt8, value.length < id.size → target.writeRegister id value = none

theorem accessesPart_offset (target : Target) (id : RegisterId) :
    target.AccessesPart id id.offset where
  read buffer h := target.readRegister_eq id h
  write value h := by
    refine ⟨_, target.writeRegister_eq id h, ?_, target.sameHidden_setRegisters _⟩
    rw [← writeRegister_eq_writeImage target id h, target.writeRegister_eq id h]
  rejected value h := if_pos h

/-- What a debugger may rely on when it moves registers one at a time. -/
structure SingleRegisters (target : Target) : Prop where
  numbered : ∀ number : Nat, (RegisterId.ofNat? number).isSome = true ↔ number ≤ 28
  /-- The register of each number is a part of the image. -/
  part : ∀ (number : Nat) (id : RegisterId), RegisterId.ofNat? number = some id →
    target.AccessesPart id (RegisterId.imageOffset number)
  /-- There is no status register to write. -/
  status : ∀ value : List UInt8, 4 ≤ value.length → target.writeRegister .sr value = some target
  /-- Writing all registers leaves what a debugger does not see, too. -/
  hidden : ∀ (bytes : List UInt8) (after : Target), target.writeImage bytes = some after →
    target.SameHidden after

/-- Access to single registers agrees with access to all of them. -/
theorem singleRegisters (target : Target) : target.SingleRegisters where
  numbered := RegisterId.isSome_ofNat?
  part number id h := by
    rw [← RegisterId.offset_of_ofNat? h]
    exact target.accessesPart_offset id
  status value h := target.writeRegister_sr h
  hidden bytes after h := sameHidden_of_writeImage h

end Target

end M68Fpu
