import M68Fpu.Debug.Target
import M68Fpu.Proofs.Calls
import M68Fpu.Proofs.Interruption
import M68Fpu.Proofs.Memory.ByteMemory

/-!
# The read-only memory

Whatever is done to a computer, its read-only memory holds the image that it was filled from
(`Memory.RomHolds`), cut or filled up with zeros to its size, and a reset finds its two vectors
there (`Computer.ResetsTo`). What can be done is a step, a reset, a write to memory past the
processor, and a write of registers or memory by a debugger (`Operation`); any of them may fail.

What a processor does is covered by the states that a bus can reach (`Machine.reaches_step`), whether
or not a step is completed.
-/

namespace M68Fpu

/-! ## Images -/

namespace Memory

/-- An image, cut or filled up with zeros to the size of the read-only memory. -/
def fitted (image : List UInt8) : List UInt8 := (image.take romEnd).rightpad romEnd 0

/-- The big-endian number of `count` bytes at an offset into the read-only memory. -/
def romNumber (image : List UInt8) (offset count : Nat) : Nat :=
  BigEndian.decode (((fitted image).drop offset).take count)

/-- Whether all reads that lie in the read-only memory answer with the bytes of an image. -/
structure RomHolds (memory : Memory) (image : List UInt8) : Prop where
  read8_eq {address : UInt32} : address.toNat < romEnd →
    Bus.read8 memory address = (fitted image)[address.toNat]?
  read16_eq {address : UInt32} : address.toNat + 2 ≤ romEnd →
    Bus.read16 memory address = some (UInt16.ofNat (romNumber image address.toNat 2))
  read32_eq {address : UInt32} : address.toNat + 4 ≤ romEnd →
    Bus.read32 memory address = some (UInt32.ofNat (romNumber image address.toNat 4))

theorem length_fitted (image : List UInt8) : (fitted image).length = romEnd := by
  simp only [fitted, List.rightpad, List.length_append, List.length_take, List.length_replicate]
  omega

theorem getElem?_fitted (image : List UInt8) {offset : Nat} (h : offset < romEnd) :
    (fitted image)[offset]? = some (image.getD offset 0) := by
  have htake : (image.take romEnd)[offset]? = image[offset]? := List.getElem?_take_of_lt h
  rw [fitted, List.rightpad, List.getElem?_append, htake, List.getD_eq_getElem?_getD]
  split
  case isTrue hlt =>
    have himage : offset < image.length := by
      rw [List.length_take] at hlt
      omega
    rw [List.getElem?_eq_getElem himage]
    rfl
  case isFalse hle =>
    have himage : image.length ≤ offset := by
      rw [List.length_take] at hle
      omega
    rw [List.getElem?_eq_none himage, List.getElem?_replicate, if_pos]
    · rfl
    · rw [List.length_take]
      omega

variable {memory after : Memory} {image : List UInt8}

theorem load_of_rom (himage : memory.image = image.toArray) {address : UInt32}
    (h : address.toNat < romEnd) :
    some (ByteAddressed.load memory address) = (fitted image)[address.toNat]? := by
  rw [getElem?_fitted image h]
  show some (if address.toNat < romEnd then memory.image.getD address.toNat 0 else _) = _
  rw [if_pos h, himage]
  simp

/-- The bytes of a range in the read-only memory. The induction is on the count, as that of
`loadBytes` is. -/
theorem loadBytes_of_rom (himage : memory.image = image.toArray) {address : UInt32} {count : Nat}
    (hend : address.toNat + count ≤ romEnd) :
    ByteAddressed.loadBytes memory address count
      = ((fitted image).drop address.toNat).take count := by
  induction count generalizing address with
  | zero => rfl
  | succ count ih =>
    have hlt : address.toNat < (fitted image).length := by
      rw [length_fitted]
      omega
    have hnext : (address + 1).toNat = address.toNat + 1 := by
      have hone : (1 : UInt32).toNat = 1 := rfl
      simp only [romEnd] at hend
      rw [UInt32.toNat_add, hone]
      omega
    have hload : ByteAddressed.load memory address = (fitted image)[address.toNat] := by
      have hsome : some (ByteAddressed.load memory address) = (fitted image)[address.toNat]? :=
        load_of_rom himage (by omega)
      rwa [List.getElem?_eq_getElem hlt, Option.some.injEq] at hsome
    rw [ByteAddressed.loadBytes, hload, ih (by omega), hnext, List.drop_eq_getElem_cons hlt,
      List.take_succ_cons]

theorem romHolds_of_image (himage : memory.image = image.toArray) : memory.RomHolds image := by
  have hread {address : UInt32} {count : Nat} (hend : address.toNat + count ≤ romEnd) :
      ByteAddressed.read memory address count = some (romNumber image address.toNat count) := by
    have hreadable : ByteAddressed.readable memory address count = true := by
      show (inRom address count || inRam address count) = true
      rw [inRom, decide_eq_true hend, Bool.true_or]
    rw [ByteAddressed.read, if_pos hreadable, loadBytes_of_rom himage hend, romNumber]
  refine ⟨fun {address} h => ?_, fun h => ?_, fun h => ?_⟩
  · have hbyte : Bus.read8 memory address
        = some (UInt8.ofNat (romNumber image address.toNat 1)) :=
      congrArg (Option.map UInt8.ofNat) (hread (Nat.succ_le_of_lt h))
    rw [hbyte, ByteAddressed.read8_eq hbyte, load_of_rom himage h]
  · exact congrArg (Option.map UInt16.ofNat) (hread h)
  · exact congrArg (Option.map UInt32.ofNat) (hread h)

/-! ## Writes -/

theorem image_of_write {address : UInt32} {count value : Nat}
    (h : ByteAddressed.write memory address count value = some after) :
    after.image = memory.image :=
  ByteAddressed.write_frame Memory.image (fun _ _ _ => rfl) h

/-- Nothing that a processor does to its memory changes the image. -/
theorem image_of_reaches (h : Bus.Reaches memory after) : after.image = memory.image := by
  induction h with
  | refl => rfl
  | write8 _ hwrite ih | write16 _ hwrite ih | write32 _ hwrite ih =>
    exact (image_of_write hwrite).trans ih
  | traceBranch _ ih => exact ih

end Memory

/-! ## Resets -/

namespace Computer

/-- What a reset does to a computer with an image: it succeeds, and leaves the data registers, the
other address registers, the instruction register, the cycle count and memory as they were. -/
structure ResetsTo (computer : Computer) (image : List UInt8) : Prop where
  fault_eq : computer.reset.fault = none
  cpu_eq : computer.reset.machine.cpu =
    Machine.resetCpu computer.cpu (UInt32.ofNat (Memory.romNumber image 0 4))
      (UInt32.ofNat (Memory.romNumber image 4 4))
  bus_eq : computer.reset.machine.bus = computer.bus

theorem resetsTo_of_romHolds {computer : Computer} {image : List UInt8}
    (h : computer.bus.RomHolds image) : computer.ResetsTo image := by
  have hstack : Bus.read32 computer.bus Machine.stackVector
      = some (UInt32.ofNat (Memory.romNumber image 0 4)) := h.read32_eq (by decide)
  have hprogram : Bus.read32 computer.bus Machine.programVector
      = some (UInt32.ofNat (Memory.romNumber image 4 4)) := h.read32_eq (by decide)
  obtain ⟨hfault, hbus, hcpu⟩ := Machine.reset_of_read hstack hprogram
  exact ⟨hfault, hcpu, hbus⟩

end Computer

/-! ## Operations -/

/-- What can be done to a computer: by its processor, by whoever has its memory, and by a
debugger. -/
inductive Operation where
  | step
  | reset
  | write8 (address : UInt32) (value : UInt8)
  | write16 (address : UInt32) (value : UInt16)
  | write32 (address value : UInt32)
  | writeRegister (id : RegisterId) (bytes : List UInt8)
  /-- Replaces all registers at once. -/
  | writeImage (bytes : List UInt8)
  | writeMemory (address : UInt32) (bytes : List UInt8)

namespace Target

def mapMemory (target : Target) (change : Memory → Memory) : Target :=
  { target with computer := { target.computer with bus := change target.computer.bus } }

/-- The target after an operation. One that fails leaves what it has done before. -/
def apply (target : Target) : Operation → Target
  | .step => target.step
  | .reset => { target with computer := target.computer.reset.machine }
  | .write8 address value =>
    target.mapMemory fun memory => (Bus.write8 memory address value).getD memory
  | .write16 address value =>
    target.mapMemory fun memory => (Bus.write16 memory address value).getD memory
  | .write32 address value =>
    target.mapMemory fun memory => (Bus.write32 memory address value).getD memory
  | .writeRegister id bytes => (target.writeRegister id bytes).getD target
  | .writeImage bytes => (target.writeImage bytes).getD target
  | .writeMemory address bytes => (target.writeMemory address bytes).2

/-- A target on a computer with an image in its read-only memory. -/
def ofImage (image : List UInt8) (cpu : Cpu) : Target where
  computer := { cpu, bus := Memory.ofImage image }

/-- The target after a list of operations. -/
def applyAll (target : Target) (operations : List Operation) : Target :=
  operations.foldl apply target

theorem image_getD {memory : Memory} {written : Option Memory}
    (h : ∀ after, written = some after → after.image = memory.image) :
    (written.getD memory).image = memory.image := by
  cases written with
  | none => rfl
  | some after => exact h after rfl

/-- No operation changes the image. -/
theorem image_apply (target : Target) (operation : Operation) :
    (target.apply operation).computer.bus.image = target.computer.bus.image := by
  cases operation with
  | step => exact Memory.image_of_reaches (Machine.reaches_step target.computer)
  | reset =>
    have hreset : target.computer.ResetsTo target.computer.bus.image.toList :=
      Computer.resetsTo_of_romHolds (Memory.romHolds_of_image rfl)
    exact congrArg Memory.image hreset.bus_eq
  | write8 address value | write16 address value | write32 address value =>
    exact image_getD fun after hwrite => Memory.image_of_write hwrite
  | writeRegister id bytes =>
    show (((target.writeRegister id bytes).getD target).computer.bus).image = _
    unfold writeRegister
    split <;> rfl
  | writeImage bytes =>
    show (((target.writeImage bytes).getD target).computer.bus).image = _
    unfold writeImage
    cases RegisterFile.ofBytes? bytes <;> rfl
  | writeMemory address bytes => exact Memory.image_of_reaches (Bus.reaches_writeBytes _ _ _)

theorem image_applyAll (target : Target) (operations : List Operation) :
    (target.applyAll operations).computer.bus.image = target.computer.bus.image := by
  induction operations generalizing target with
  | nil => rfl
  | cons operation rest ih =>
    exact (ih (target.apply operation)).trans (target.image_apply operation)

/-- The read-only memory of a computer holds its image whatever has been done, and a reset starts
from it. -/
theorem romHolds_resetsTo_applyAll (image : List UInt8) (cpu : Cpu) (operations : List Operation) :
    ((ofImage image cpu).applyAll operations).computer.bus.RomHolds image ∧
      ((ofImage image cpu).applyAll operations).computer.ResetsTo image := by
  have hrom : ((ofImage image cpu).applyAll operations).computer.bus.RomHolds image :=
    Memory.romHolds_of_image (image_applyAll _ operations)
  exact ⟨hrom, Computer.resetsTo_of_romHolds hrom⟩

example : ((ofImage [0x00, 0x10] {}).applyAll
      [.writeMemory 0xFFFE [1, 2, 3], .write32 0xFFFE 4, .step, .reset]).computer.cpu.address.get 7
    = 0x100000 := by
  decide +kernel

end Target

end M68Fpu
