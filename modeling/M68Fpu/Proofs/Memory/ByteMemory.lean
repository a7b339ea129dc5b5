import M68Fpu.Bus.Flat
import M68Fpu.Bus.Memory
import M68Fpu.Bus.Sparse
import M68Fpu.Proofs.Memory.Contents

/-!
# Buses that are memory

A bus is memory if it reads back what was written: it has contents, an accepted read answers with
the number that the contents hold, and an accepted write replaces exactly its own bytes. Which
accesses are accepted is left open, so read-only and refused ranges are allowed.

All buses made of bytes are of this kind (`LawfulByteAddressed`): flat memory, the computer's memory
map and sparse memory.
-/

namespace M68Fpu

/-- A bus that reads back what was written. -/
class ByteMemory (β : Type) [Bus β] where
  /-- What the bus holds under each address. -/
  contents : β → Contents
  read8_eq {bus : β} {address : UInt32} {value : UInt8} :
    Bus.read8 bus address = some value → value = contents bus address
  read16_eq {bus : β} {address : UInt32} {value : UInt16} :
    Bus.read16 bus address = some value → value = (contents bus).word address
  read32_eq {bus : β} {address value : UInt32} :
    Bus.read32 bus address = some value → value = (contents bus).long address
  write8_eq {bus after : β} {address : UInt32} {value : UInt8} :
    Bus.write8 bus address value = some after →
      contents after = (contents bus).overwrite address [value]
  write16_eq {bus after : β} {address : UInt32} {value : UInt16} :
    Bus.write16 bus address value = some after →
      contents after = (contents bus).overwrite address (BigEndian.encode 2 value.toNat)
  write32_eq {bus after : β} {address value : UInt32} :
    Bus.write32 bus address value = some after →
      contents after = (contents bus).putLong address value
  traceBranch_eq (bus : β) : contents (Bus.traceBranch bus) = contents bus

/-! ## Buses made of bytes -/

/-- Bytes that are as they were stored wherever storing is allowed. -/
class LawfulByteAddressed (β : Type) [ByteAddressed β] : Prop where
  writable_store (bus : β) (address : UInt32) (byte : UInt8) :
    ByteAddressed.writable (ByteAddressed.store bus address byte) = ByteAddressed.writable bus
  load_store {bus : β} {first : UInt32} {count i : Nat} (byte : UInt8) (other : UInt32) :
    ByteAddressed.writable bus first count = true → i < count →
      ByteAddressed.load (ByteAddressed.store bus (first + UInt32.ofNat i) byte) other
        = if other = first + UInt32.ofNat i then byte else ByteAddressed.load bus other
  load_traceBranch (bus : β) :
    ByteAddressed.load (ByteAddressed.traceBranch bus) = ByteAddressed.load bus

namespace Contents

/-- Replacing a run of bytes is replacing the first and then the others. -/
theorem overwrite_cons (contents : Contents) (address : UInt32) (byte : UInt8) {rest : List UInt8}
    (hlength : rest.length < 0x100000000) :
    contents.overwrite address (byte :: rest)
      = overwrite (fun other => if other = address then byte else contents other)
          (address + 1) rest := by
  funext other
  have haddress := address.toNat_lt
  have hother := other.toNat_lt
  have hone : (1 : UInt32).toNat = 1 := rfl
  by_cases h : other = address
  · -- The first address is the last one counted from the second, so the rest does not reach it.
    subst h
    have hlast : rest.length ≤ (other - (other + 1)).toNat := by
      simp only [UInt32.toNat_sub, UInt32.toNat_add, hone]
      omega
    show (byte :: rest)[(other - other).toNat]?.getD (contents other)
      = rest[(other - (other + 1)).toNat]?.getD (if other = other then byte else contents other)
    rw [UInt32.sub_self, List.getElem?_eq_none hlast, if_pos rfl]
    rfl
  · -- Every other address is one step closer to the second.
    have hne : other.toNat ≠ address.toNat := fun heq => h (UInt32.toNat_inj.mp heq)
    have hsucc : (other - address).toNat = (other - (address + 1)).toNat + 1 := by
      simp only [UInt32.toNat_sub, UInt32.toNat_add, hone]
      omega
    simp only [overwrite, hsucc, List.getElem?_cons_succ, if_neg h]

theorem bytes_succ (contents : Contents) (address : UInt32) (count : Nat) :
    contents.bytes address (count + 1)
      = contents address :: contents.bytes (address + 1) count := by
  have htail (i : Nat) : address + UInt32.ofNat (i + 1) = address + 1 + UInt32.ofNat i := by
    rw [UInt32.ofNat_add, UInt32.add_comm (UInt32.ofNat i), UInt32.add_assoc]
    rfl
  simp only [bytes, List.range_succ_eq_map, List.map_cons, List.map_map, Function.comp_def]
  congr 1
  · simp
  · exact List.map_congr_left fun i _ => by rw [Nat.succ_eq_add_one, htail]

end Contents

namespace ByteAddressed

variable {β : Type} [ByteAddressed β]

theorem loadBytes_eq (bus : β) (address : UInt32) (count : Nat) :
    loadBytes bus address count = Contents.bytes (load bus) address count := by
  induction count generalizing address with
  | zero => rfl
  | succ count ih => rw [loadBytes, ih, Contents.bytes_succ]

/-- What a single store keeps, storing a run of bytes keeps. -/
theorem storeBytes_frame {δ : Type} (part : β → δ)
    (hstore : ∀ (bus : β) (address : UInt32) (byte : UInt8),
      part (store bus address byte) = part bus) (bus : β) (address : UInt32) (data : List UInt8) :
    part (storeBytes bus address data) = part bus := by
  induction data generalizing bus address with
  | nil => rfl
  | cons byte rest ih => exact (ih _ _).trans (hstore bus address byte)

theorem write_frame {δ : Type} (part : β → δ)
    (hstore : ∀ (bus : β) (address : UInt32) (byte : UInt8),
      part (store bus address byte) = part bus) {bus after : β} {address : UInt32}
    {count value : Nat} (h : write bus address count value = some after) :
    part after = part bus := by
  unfold write at h
  split at h
  · cases h
    exact storeBytes_frame part hstore bus address _
  · cases h

theorem read_eq_some {bus : β} {address : UInt32} {count value : Nat}
    (h : read bus address count = some value) :
    value = BigEndian.decode (Contents.bytes (load bus) address count) := by
  unfold read at h
  split at h
  · rw [← loadBytes_eq]
    exact (Option.some.inj h).symm
  · exact absurd h (by simp)

theorem read8_eq {bus : β} {address : UInt32} {value : UInt8}
    (h : Bus.read8 bus address = some value) : value = load bus address := by
  obtain ⟨value, hread, rfl⟩ := Option.map_eq_some_iff.mp h
  rw [read_eq_some hread]
  simp [Contents.bytes, BigEndian.decode, LittleEndian.decode]

theorem read16_eq {bus : β} {address : UInt32} {value : UInt16}
    (h : Bus.read16 bus address = some value) : value = Contents.word (load bus) address := by
  obtain ⟨value, hread, rfl⟩ := Option.map_eq_some_iff.mp h
  rw [read_eq_some hread, Contents.word]

theorem read32_eq {bus : β} {address value : UInt32}
    (h : Bus.read32 bus address = some value) : value = Contents.long (load bus) address := by
  obtain ⟨value, hread, rfl⟩ := Option.map_eq_some_iff.mp h
  rw [read_eq_some hread, Contents.long]

variable [LawfulByteAddressed β]

/-- The induction is on the bytes that are left, which still end within the range that may be
written. -/
theorem load_storeBytes_at {bus : β} {first : UInt32} {count i : Nat} {data : List UInt8}
    (hwritable : writable bus first count = true) (hcount : count ≤ 0x100000000)
    (hend : i + data.length ≤ count) :
    load (storeBytes bus (first + UInt32.ofNat i) data)
      = Contents.overwrite (load bus) (first + UInt32.ofNat i) data := by
  induction data generalizing bus i with
  | nil => rfl
  | cons byte rest ih =>
    simp only [List.length_cons] at hend
    -- `load_store` needs the address as an offset into the writable range, hence `i`.
    have hstored : load (store bus (first + UInt32.ofNat i) byte)
        = fun other => if other = first + UInt32.ofNat i then byte else load bus other :=
      funext fun other => LawfulByteAddressed.load_store byte other hwritable (by omega)
    have hnext : first + UInt32.ofNat i + 1 = first + UInt32.ofNat (i + 1) := by
      rw [UInt32.ofNat_add, UInt32.add_assoc]
      rfl
    rw [Contents.overwrite_cons _ _ _ (by omega), storeBytes, hnext,
      ih (by rwa [LawfulByteAddressed.writable_store]) (by omega), hstored]

/-- Storing bytes one after the other replaces the run. -/
theorem load_storeBytes {bus : β} {address : UInt32} {data : List UInt8}
    (hwritable : writable bus address data.length = true) (hcount : data.length ≤ 0x100000000) :
    load (storeBytes bus address data) = Contents.overwrite (load bus) address data := by
  have hend : 0 + data.length ≤ data.length := by omega
  simpa using load_storeBytes_at hwritable hcount hend

theorem write_eq_some {bus after : β} {address : UInt32} {count value : Nat}
    (hcount : count ≤ 0x100000000) (h : write bus address count value = some after) :
    load after = Contents.overwrite (load bus) address (BigEndian.encode count value) := by
  unfold write at h
  split at h
  · next hwritable =>
    obtain rfl := Option.some.inj h
    have hlength : (BigEndian.encode count value).length = count := by simp
    exact load_storeBytes (by rwa [hlength]) (by rwa [hlength])
  · exact absurd h (by simp)

theorem write8_eq {bus after : β} {address : UInt32} {value : UInt8}
    (h : Bus.write8 bus address value = some after) :
    load after = Contents.overwrite (load bus) address [value] := by
  have hencode : BigEndian.encode 1 value.toNat = [value] := by
    simp [BigEndian.encode, LittleEndian.encode]
  rw [write_eq_some (by omega) h, hencode]

instance : ByteMemory β where
  contents := load
  read8_eq := read8_eq
  read16_eq := read16_eq
  read32_eq := read32_eq
  write8_eq := write8_eq
  write16_eq := write_eq_some (Nat.le_of_ble_eq_true rfl)
  write32_eq := write_eq_some (Nat.le_of_ble_eq_true rfl)
  traceBranch_eq := LawfulByteAddressed.load_traceBranch

end ByteAddressed

/-! ## The buses of this library -/

theorem FlatMemory.readable_iff (memory : FlatMemory) (address : UInt32) (count : Nat) :
    ByteAddressed.readable memory address count = true ↔ address.toNat + count ≤ memory.size :=
  decide_eq_true_iff

theorem FlatMemory.writable_iff (memory : FlatMemory) (address : UInt32) (count : Nat) :
    ByteAddressed.writable memory address count = true ↔ address.toNat + count ≤ memory.size :=
  decide_eq_true_iff

theorem Memory.readable_iff (memory : Memory) (address : UInt32) (count : Nat) :
    ByteAddressed.readable memory address count = true ↔
      address.toNat + count ≤ romEnd ∨
        (romEnd ≤ address.toNat ∧ address.toNat + count ≤ ramEnd) := by
  show (inRom address count || inRam address count) = true ↔ _
  rw [Bool.or_eq_true, inRom, inRam, decide_eq_true_iff, decide_eq_true_iff]

theorem Memory.writable_iff (memory : Memory) (address : UInt32) (count : Nat) :
    ByteAddressed.writable memory address count = true ↔
      romEnd ≤ address.toNat ∧ address.toNat + count ≤ ramEnd :=
  decide_eq_true_iff

instance : LawfulByteAddressed FlatMemory where
  writable_store _ _ _ := rfl
  load_store byte other _ _ := ByteMap.load_store _ _ other byte
  load_traceBranch _ := rfl

/-- Bytes of the read-only memory are not writable, so what is stored lies above it. -/
instance : LawfulByteAddressed Memory where
  writable_store _ _ _ := rfl
  load_store {memory first count i} byte other hwritable hi := by
    have hrange := (memory.writable_iff first count).mp hwritable
    have habove : Memory.romEnd ≤ (first + UInt32.ofNat i).toNat := by
      simp only [Memory.romEnd, Memory.ramEnd, UInt32.toNat_add, UInt32.toNat_ofNat'] at hrange ⊢
      omega
    show (if other.toNat < Memory.romEnd then memory.image.getD other.toNat 0
        else (memory.ram.store (first + UInt32.ofNat i) byte).load other)
      = if other = first + UInt32.ofNat i then byte
        else if other.toNat < Memory.romEnd then memory.image.getD other.toNat 0
          else memory.ram.load other
    rw [ByteMap.load_store]
    by_cases h : other = first + UInt32.ofNat i
    · rw [if_pos h, if_pos h, if_neg (by rw [h]; exact Nat.not_lt.mpr habove)]
    · rw [if_neg h, if_neg h]
  load_traceBranch _ := rfl

instance : LawfulByteAddressed SparseMemory where
  writable_store memory address byte := by
    funext first count
    show SparseMemory.allowed _ first count = SparseMemory.allowed memory first count
    induction count generalizing first with
    | zero => rfl
    | succ count ih =>
      simp only [SparseMemory.allowed, ih]
      rfl
  load_store byte other _ _ := ByteMap.load_store _ _ other byte
  load_traceBranch memory := by
    show (if memory.tracing then { memory with branches := memory.branches + 1 } else memory
      : SparseMemory).contents.load = memory.contents.load
    split <;> rfl

end M68Fpu
