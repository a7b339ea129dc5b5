import Mathlib.Order.Bounds.Defs
import M68Fpu.Debug.Target
import M68Fpu.Proofs.BusUse
import M68Fpu.Proofs.Memory.AccessHistory

/-!
# Ranges of memory

A debugger reads and writes ranges of memory byte by byte, up to the first byte that is refused. A
range can be read if it ends within the memory, whether or not it spans both parts of it
(`Memory.readBytes_eq`), and of a range that is written the part before the first byte outside the
random access memory is replaced (`Memory.writeBytes_eq`).

The address is carried from byte to byte and could wrap. It never does, because the byte at the end
of the memory has been refused by then (`Memory.toNat_succ`).
-/

namespace M68Fpu

open AccessSize (Value)

namespace Memory

/-! ## Single bytes -/

theorem read8_eq (memory : Memory) (address : UInt32) :
    Bus.read8 memory address
      = if address.toNat < ramEnd then some (ByteAddressed.load memory address) else none := by
  have hreadable : Readable address 1 ↔ address.toNat < ramEnd := by
    simp only [Readable, Writable, romEnd, ramEnd]
    omega
  show (ByteAddressed.read memory address 1).map UInt8.ofNat = _
  rw [read_eq, if_congr hreadable rfl rfl]
  split
  · simp [Contents.bytes, BigEndian.decode, LittleEndian.decode]
  · rfl

theorem write8_eq (memory : Memory) (address : UInt32) (byte : UInt8) :
    Bus.write8 memory address byte
      = if Writable address 1 then some (ByteAddressed.store memory address byte) else none := by
  have hencode : BigEndian.encode 1 byte.toNat = [byte] := by
    simp [BigEndian.encode, LittleEndian.encode]
  show ByteAddressed.write memory address 1 byte.toNat = _
  rw [ByteAddressed.write, hencode]
  exact if_congr (memory.writable_iff address 1) rfl rfl

theorem toNat_succ {address : UInt32} (h : address.toNat < ramEnd) :
    (address + 1).toNat = address.toNat + 1 := by
  have hone : (1 : UInt32).toNat = 1 := rfl
  simp only [ramEnd] at h
  rw [UInt32.toNat_add, hone]
  omega

/-! ## Reading -/

/-- The induction is on the count, as that of `Bus.readBytes` is. -/
theorem readBytes_eq (memory : Memory) (address : UInt32) (count : Nat) :
    Bus.readBytes memory address count
      = if count = 0 ∨ address.toNat + count ≤ ramEnd then
          some (Contents.bytes (ByteAddressed.load memory) address count)
        else none := by
  induction count generalizing address with
  | zero => rfl
  | succ count ih =>
    rw [Bus.readBytes, read8_eq]
    by_cases hfirst : address.toNat < ramEnd
    · have hrest : (count = 0 ∨ (address + 1).toNat + count ≤ ramEnd) ↔
          (count + 1 = 0 ∨ address.toNat + (count + 1) ≤ ramEnd) := by
        rw [toNat_succ hfirst]
        omega
      rw [if_pos hfirst, ih, if_congr hrest rfl rfl, Contents.bytes_succ]
      split <;> rfl
    · have houtside : ¬ (count + 1 = 0 ∨ address.toNat + (count + 1) ≤ ramEnd) := by omega
      rw [if_neg hfirst, if_neg houtside]
      rfl

/-! ## Writing -/

/-- How many of `count` bytes from an address on come before the first that is not in the random
access memory. -/
def writableCount (address : UInt32) (count : Nat) : Nat :=
  if romEnd ≤ address.toNat then min count (ramEnd - address.toNat) else 0

theorem writableCount_le (address : UInt32) (count : Nat) : writableCount address count ≤ count := by
  unfold writableCount
  split <;> omega

theorem isGreatest_writableCount (address : UInt32) (count : Nat) :
    IsGreatest {n | n ≤ count ∧
        ∀ i < n, romEnd ≤ address.toNat + i ∧ address.toNat + i < ramEnd}
      (writableCount address count) := by
  unfold writableCount
  constructor
  · split
    · exact ⟨Nat.min_le_left .., fun i hi => by omega⟩
    · exact ⟨Nat.zero_le count, fun i hi => by omega⟩
  · rintro n ⟨hcount, hinside⟩
    -- The first byte decides about the lower end of the memory and the last about the upper one.
    cases n with
    | zero => exact Nat.zero_le _
    | succ n =>
      have hfirst := (hinside 0 (Nat.succ_pos n)).1
      have hlast := (hinside n (Nat.lt_succ_self n)).2
      rw [if_pos (by omega)]
      omega

theorem le_writableCount_iff (address : UInt32) (count : Nat) :
    count ≤ writableCount address count ↔
      count = 0 ∨ romEnd ≤ address.toNat ∧ address.toNat + count ≤ ramEnd := by
  unfold writableCount
  split <;> omega

theorem writableCount_succ {address : UInt32} (count : Nat) (h : Writable address 1) :
    writableCount address (count + 1) = writableCount (address + 1) count + 1 := by
  have hnext : (address + 1).toNat = address.toNat + 1 := toNat_succ h.2
  have hfirst : romEnd ≤ address.toNat := h.1
  have hlast : address.toNat + 1 ≤ ramEnd := h.2
  rw [writableCount, writableCount, if_pos hfirst, hnext, if_pos (by omega)]
  omega

theorem writableCount_eq_zero {address : UInt32} (count : Nat) (h : ¬ Writable address 1) :
    writableCount address count = 0 := by
  unfold Writable at h
  unfold writableCount
  split <;> omega

/-- The induction is on the bytes. One that is refused leaves the rest unwritten, also if there is
random access memory further on. -/
theorem writeBytes_eq (memory : Memory) (address : UInt32) (data : List UInt8) :
    Bus.writeBytes memory address data
      = (decide (data.length ≤ writableCount address data.length),
          ByteAddressed.storeBytes memory address
            (data.take (writableCount address data.length))) := by
  induction data generalizing memory address with
  | nil => simp [Bus.writeBytes, ByteAddressed.storeBytes]
  | cons byte rest ih =>
    rw [Bus.writeBytes, write8_eq]
    by_cases hfirst : Writable address 1
    · rw [if_pos hfirst]
      simp only [ih, List.length_cons, writableCount_succ rest.length hfirst,
        Nat.add_le_add_iff_right, List.take_succ_cons, ByteAddressed.storeBytes]
    · rw [if_neg hfirst, writableCount_eq_zero _ hfirst]
      rfl

/-- What writing leaves under each address. -/
theorem load_writeBytes (memory : Memory) (address : UInt32) (data : List UInt8) :
    ByteAddressed.load (Bus.writeBytes memory address data).2
      = Contents.overwrite (ByteAddressed.load memory) address
          (data.take (writableCount address data.length)) := by
  have hcount := writableCount_le address data.length
  rw [writeBytes_eq]
  by_cases hnone : writableCount address data.length = 0
  · rw [hnone]
    rfl
  · have hlength : (data.take (writableCount address data.length)).length
        = writableCount address data.length := by
      rw [List.length_take]
      omega
    have hfirst : romEnd ≤ address.toNat := by
      by_contra hbelow
      exact hnone (if_neg hbelow)
    have hend : address.toNat + writableCount address data.length ≤ ramEnd := by
      rw [writableCount, if_pos hfirst] at hnone ⊢
      omega
    apply ByteAddressed.load_storeBytes
    · rw [memory.writable_iff, hlength]
      exact ⟨hfirst, hend⟩
    · rw [hlength]
      simp only [ramEnd] at hend
      omega

end Memory

namespace Target

open Memory (romEnd ramEnd)

/-! ## What a debugger reads -/

/-- What reading a range of a target gives. A target is not changed by being read. -/
structure ReadsRange (target : Target) (address : UInt32) (count : Nat) : Prop where
  isSome_iff : (target.readMemory address count).isSome = true ↔
    count = 0 ∨ address.toNat + count ≤ ramEnd
  length_eq {data : List UInt8} : target.readMemory address count = some data → data.length = count
  getElem?_eq {data : List UInt8} {i : Nat} : target.readMemory address count = some data →
    i < count → data[i]? = some (
      if address.toNat + i < romEnd then target.computer.bus.image.getD (address.toNat + i) 0
      else target.computer.bus.ram.load (address + UInt32.ofNat i))
  /-- The processor reads the same wherever it can read. -/
  agrees {data : List UInt8} {i : Nat} {size : AccessSize} {value : size.Value} :
    target.readMemory address count = some data → i + size.bytes ≤ count →
    Bus.readSized target.computer.bus size (address + UInt32.ofNat i) = some value →
    value.toNat = BigEndian.decode ((data.drop i).take size.bytes)

theorem readMemory_eq_some_iff {target : Target} {address : UInt32} {count : Nat}
    {data : List UInt8} :
    target.readMemory address count = some data ↔
      (count = 0 ∨ address.toNat + count ≤ ramEnd) ∧
        data = Contents.bytes (ByteAddressed.load target.computer.bus) address count := by
  rw [readMemory, Memory.readBytes_eq]
  split <;> simp [*, eq_comm]

theorem readsRange (target : Target) (address : UInt32) (count : Nat) :
    target.ReadsRange address count where
  isSome_iff := by
    rw [Option.isSome_iff_exists]
    simp only [readMemory_eq_some_iff, exists_and_left, exists_eq, and_true]
  length_eq h := by
    rw [(readMemory_eq_some_iff.mp h).2, Contents.length_bytes]
  getElem?_eq {data i} h hi := by
    obtain ⟨hrange, rfl⟩ := readMemory_eq_some_iff.mp h
    have haddress : (address + UInt32.ofNat i).toNat = address.toNat + i := by
      simp only [ramEnd] at hrange
      rw [UInt32.toNat_add, UInt32.toNat_ofNat']
      omega
    rw [Contents.bytes, List.getElem?_map, List.getElem?_range hi, ← haddress]
    rfl
  agrees {data i size value} h hi hread := by
    obtain ⟨-, rfl⟩ := readMemory_eq_some_iff.mp h
    have hnumber := ByteAddressed.map_toNat_readSized target.computer.bus size
      (address + UInt32.ofNat i)
    rw [hread] at hnumber
    rw [ByteAddressed.read_eq_some hnumber.symm, Contents.take_drop_bytes _ _ hi]

/-! ## What a debugger writes -/

/-- What writing a range of a target does. -/
structure WritesRange (target : Target) (address : UInt32) (data : List UInt8) : Prop where
  complete_iff : (target.writeMemory address data).1 = true ↔
    data = [] ∨ romEnd ≤ address.toNat ∧ address.toNat + data.length ≤ ramEnd
  readBack : (target.writeMemory address data).1 = true →
    (target.writeMemory address data).2.readMemory address data.length = some data
  /-- The longest prefix of the data that lies in the random access memory is written, and no byte
  outside of it is changed. -/
  written : ∃ count,
    IsGreatest {n | n ≤ data.length ∧
      ∀ i < n, romEnd ≤ address.toNat + i ∧ address.toNat + i < ramEnd} count ∧
    ∀ other, ByteAddressed.load (target.writeMemory address data).2.computer.bus other =
      (data.take count)[(other - address).toNat]?.getD
        (ByteAddressed.load target.computer.bus other)
  cpu_eq : (target.writeMemory address data).2.computer.cpu = target.computer.cpu
  events_eq : (target.writeMemory address data).2.computer.events = target.computer.events
  breakpoints_eq : (target.writeMemory address data).2.breakpoints = target.breakpoints
  branches_eq : (target.writeMemory address data).2.computer.bus.branches
    = target.computer.bus.branches
  image_eq : (target.writeMemory address data).2.computer.bus.image = target.computer.bus.image

theorem complete_writeMemory_iff (target : Target) (address : UInt32) (data : List UInt8) :
    (target.writeMemory address data).1 = true ↔
      data = [] ∨ romEnd ≤ address.toNat ∧ address.toNat + data.length ≤ ramEnd := by
  show (Bus.writeBytes target.computer.bus address data).1 = true ↔ _
  rw [Memory.writeBytes_eq, decide_eq_true_iff, Memory.le_writableCount_iff, List.length_eq_zero_iff]

theorem load_writeMemory (target : Target) (address : UInt32) (data : List UInt8) :
    ByteAddressed.load (target.writeMemory address data).2.computer.bus
      = Contents.overwrite (ByteAddressed.load target.computer.bus) address
          (data.take (Memory.writableCount address data.length)) :=
  Memory.load_writeBytes target.computer.bus address data

/-- What no store of a byte changes is as before. -/
theorem writeMemory_frame {δ : Type} (part : Memory → δ)
    (hstore : ∀ (memory : Memory) (address : UInt32) (byte : UInt8),
      part (ByteAddressed.store memory address byte) = part memory)
    (target : Target) (address : UInt32) (data : List UInt8) :
    part (target.writeMemory address data).2.computer.bus = part target.computer.bus := by
  show part (Bus.writeBytes target.computer.bus address data).2 = _
  rw [Memory.writeBytes_eq]
  exact ByteAddressed.storeBytes_frame part hstore _ _ _

theorem writesRange (target : Target) (address : UInt32) (data : List UInt8) :
    target.WritesRange address data where
  complete_iff := target.complete_writeMemory_iff address data
  readBack hcomplete := by
    have hrange := (target.complete_writeMemory_iff address data).mp hcomplete
    have hall : data.length ≤ Memory.writableCount address data.length := by
      rwa [Memory.le_writableCount_iff, List.length_eq_zero_iff]
    have hspace : data.length ≤ 0x100000000 := by
      simp only [ramEnd] at hrange
      rcases hrange with rfl | hrange
      · exact Nat.zero_le _
      · omega
    rw [readMemory_eq_some_iff, load_writeMemory, List.take_of_length_le hall,
      Contents.bytes_overwrite_self _ _ hspace]
    exact ⟨hrange.imp List.length_eq_zero_iff.mpr And.right, rfl⟩
  written := by
    refine ⟨_, Memory.isGreatest_writableCount address data.length, fun other => ?_⟩
    rw [load_writeMemory]
    rfl
  cpu_eq := rfl
  events_eq := rfl
  breakpoints_eq := rfl
  branches_eq := writeMemory_frame Memory.branches (fun _ _ _ => rfl) target address data
  image_eq := writeMemory_frame Memory.image (fun _ _ _ => rfl) target address data

/-- A debugger reads and writes exactly the bytes of a range. -/
theorem readsRange_writesRange (target : Target) (address : UInt32) :
    (∀ count, target.ReadsRange address count) ∧ ∀ data, target.WritesRange address data :=
  ⟨target.readsRange address, target.writesRange address⟩

/-- A range that runs past the end of the memory: its first two bytes are written. -/
example :
    let target : Target := { computer := { bus := Memory.ofImage [] } }
    let written := target.writeMemory 0xFFFFFE [1, 2, 3]
    written.1 = false ∧ written.2.readMemory 0xFFFFFD 3 = some [0, 1, 2] := by
  decide +kernel

end Target

end M68Fpu
