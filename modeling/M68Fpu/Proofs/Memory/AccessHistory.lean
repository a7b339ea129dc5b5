import Mathlib.Data.List.Induction
import M68Fpu.Proofs.Memory.ByteMemory

/-!
# The memory map as a byte map

What the computer's memory answers after any sequence of reads and writes, in terms of the sequence
alone. `Memory.mapAfter` says what every byte is: the byte of the image in the read-only memory, and
above it the last byte that an accepted write has put there. Sizes mix freely, as every access is
one of bytes (`Bus.readSized`, `Bus.writeSized`): a read is the big-endian number of its bytes in the
map, and a write replaces its bytes and no other (`Memory.AnswersFromMap`).

Ranges are compared as numbers, so a range that would run around the end of the address space lies
nowhere.
-/

namespace M68Fpu

/-! ## Accesses of any size -/

namespace AccessSize

/-- The bytes of an access. -/
def bytes : AccessSize → Nat
  | byte => 1
  | word => 2
  | long => 4

/-- The numbers that an access carries. -/
abbrev Value : AccessSize → Type
  | byte => UInt8
  | word => UInt16
  | long => UInt32

def Value.toNat : {size : AccessSize} → size.Value → Nat
  | byte, value => UInt8.toNat value
  | word, value => UInt16.toNat value
  | long, value => UInt32.toNat value

end AccessSize

open AccessSize (Value)

namespace Bus

variable {β : Type} [Bus β]

/-- The read of a size. -/
def readSized (bus : β) : (size : AccessSize) → (address : UInt32) → Option size.Value
  | .byte, address => read8 bus address
  | .word, address => read16 bus address
  | .long, address => read32 bus address

/-- The write of a size. -/
def writeSized (bus : β) :
    (size : AccessSize) → (address : UInt32) → (value : size.Value) → Option β
  | .byte, address, value => write8 bus address value
  | .word, address, value => write16 bus address value
  | .long, address, value => write32 bus address value

end Bus

namespace ByteAddressed

variable {β : Type} [ByteAddressed β]

/-- What is read fits its size, so no answer is cut off. -/
theorem map_toNat_readSized (bus : β) (size : AccessSize) (address : UInt32) :
    (Bus.readSized bus size address).map Value.toNat = read bus address size.bytes := by
  have hanswer : (Bus.readSized bus size address).map Value.toNat
      = (read bus address size.bytes).map (· % 256 ^ size.bytes) := by
    cases size <;> exact Option.map_map ..
  rw [hanswer]
  cases hread : read bus address size.bytes with
  | none => rfl
  | some value =>
    have hfits := BigEndian.decode_lt (Contents.bytes (load bus) address size.bytes)
    rw [Contents.length_bytes, ← read_eq_some hread] at hfits
    exact congrArg some (Nat.mod_eq_of_lt hfits)

theorem writeSized_eq (bus : β) (size : AccessSize) (address : UInt32) (value : size.Value) :
    Bus.writeSized bus size address value = write bus address size.bytes value.toNat := by
  cases size <;> rfl

end ByteAddressed

namespace Memory

/-! ## Regions -/

/-- Whether a range lies wholly in the random access memory. -/
def Writable (address : UInt32) (count : Nat) : Prop :=
  romEnd ≤ address.toNat ∧ address.toNat + count ≤ ramEnd

/-- Whether a range lies wholly in the read-only memory or wholly in the random access memory. -/
def Readable (address : UInt32) (count : Nat) : Prop :=
  address.toNat + count ≤ romEnd ∨ Writable address count

instance (address : UInt32) (count : Nat) : Decidable (Writable address count) :=
  inferInstanceAs (Decidable (_ ∧ _))

instance (address : UInt32) (count : Nat) : Decidable (Readable address count) :=
  inferInstanceAs (Decidable (_ ∨ _))

/-- A range that may be written has no byte in the read-only memory. -/
theorem Writable.romEnd_le {first address : UInt32} {count : Nat} (h : Writable first count)
    (hwithin : Within first count address) : romEnd ≤ address.toNat := by
  have hfirst := first.toNat_lt
  have haddress := address.toNat_lt
  simp only [Writable, romEnd, ramEnd] at h ⊢
  simp only [Within, UInt32.toNat_sub] at hwithin
  omega

theorem read_eq (memory : Memory) (address : UInt32) (count : Nat) :
    ByteAddressed.read memory address count
      = if Readable address count then
          some (BigEndian.decode (Contents.bytes (ByteAddressed.load memory) address count))
        else none := by
  rw [ByteAddressed.read, ByteAddressed.loadBytes_eq]
  exact if_congr (memory.readable_iff address count) rfl rfl

theorem writeSized_eq_none_iff {memory : Memory} {size : AccessSize} {address : UInt32}
    {value : size.Value} :
    Bus.writeSized memory size address value = none ↔ ¬ Writable address size.bytes := by
  rw [ByteAddressed.writeSized_eq, ByteAddressed.write, Writable, ← memory.writable_iff]
  split <;> simp [*]

theorem load_of_writeSized_eq_some {memory after : Memory} {size : AccessSize} {address : UInt32}
    {value : size.Value} (h : Bus.writeSized memory size address value = some after) :
    ByteAddressed.load after = Contents.overwrite (ByteAddressed.load memory) address
      (BigEndian.encode size.bytes value.toNat) := by
  rw [ByteAddressed.writeSized_eq] at h
  exact ByteAddressed.write_eq_some (by cases size <;> decide) h

/-! ## Sequences of accesses -/

/-- A read or a write of a memory. -/
inductive Access where
  | read (size : AccessSize) (address : UInt32)
  | write (size : AccessSize) (address : UInt32) (value : size.Value)

/-- The memory after an access. A refused write leaves it as it was. -/
def access (memory : Memory) : Access → Memory
  | .read _ _ => memory
  | .write size address value => (Bus.writeSized memory size address value).getD memory

/-- The memory after accesses, one after the other. -/
def accessAll (memory : Memory) (accesses : List Access) : Memory := accesses.foldl access memory

/-- The byte that an access puts under an address, if it does. -/
def Access.puts (address : UInt32) : Access → Option UInt8
  | .read _ _ => none
  | .write size first value =>
    if Writable first size.bytes then
      (BigEndian.encode size.bytes value.toNat)[(address - first).toNat]?
    else none

/-- What every byte is after accesses to a new memory: one of the image in the read-only memory, and
elsewhere the last that was put there. -/
def mapAfter (image : List UInt8) (accesses : List Access) : Contents := fun address =>
  if address.toNat < romEnd then image.getD address.toNat 0
  else (accesses.filterMap (Access.puts address)).getLast?.getD 0

theorem Access.puts_eq_none_of_rom (access : Access) {address : UInt32}
    (hrom : address.toNat < romEnd) : access.puts address = none := by
  cases access with
  | read size first => rfl
  | write size first value =>
    by_cases hwritable : Writable first size.bytes
    · rw [puts, if_pos hwritable]
      apply List.getElem?_eq_none
      rw [BigEndian.length_encode]
      -- An address of the read-only memory is not one of those that may be written.
      exact Nat.le_of_not_lt fun hwithin =>
        absurd (hwritable.romEnd_le hwithin) (Nat.not_le.mpr hrom)
    · rw [puts, if_neg hwritable]

/-- What one access does to the bytes of a memory. -/
theorem load_access (memory : Memory) (access : Access) (address : UInt32) :
    ByteAddressed.load (memory.access access) address
      = (access.puts address).getD (ByteAddressed.load memory address) := by
  cases access with
  | read size first => rfl
  | write size first value =>
    rw [Memory.access, Access.puts]
    -- The bus refuses exactly the ranges in which nothing is put.
    cases hwrite : Bus.writeSized memory size first value with
    | none =>
      rw [if_neg (writeSized_eq_none_iff.mp hwrite)]
      rfl
    | some after =>
      have hwritable : Writable first size.bytes := by
        by_contra hrefused
        rw [writeSized_eq_none_iff.mpr hrefused] at hwrite
        cases hwrite
      rw [if_pos hwritable]
      exact congrFun (load_of_writeSized_eq_some hwrite) address

/-- What one access does to the map. -/
theorem mapAfter_concat (image : List UInt8) (accesses : List Access) (access : Access)
    (address : UInt32) :
    mapAfter image (accesses ++ [access]) address
      = (access.puts address).getD (mapAfter image accesses address) := by
  unfold mapAfter
  split
  -- The map has the image in the read-only memory, where no access puts anything.
  case isTrue hrom => rw [access.puts_eq_none_of_rom hrom]; rfl
  case isFalse =>
    rw [List.filterMap_append]
    cases hputs : access.puts address <;> simp [hputs]

theorem mapAfter_write {size : AccessSize} {address : UInt32} (image : List UInt8)
    (accesses : List Access) (value : size.Value) (h : Writable address size.bytes) :
    mapAfter image (accesses ++ [.write size address value])
      = (mapAfter image accesses).overwrite address (BigEndian.encode size.bytes value.toNat) := by
  funext other
  rw [mapAfter_concat, Access.puts, if_pos h, Contents.overwrite]

theorem mapAfter_refused {size : AccessSize} {address : UInt32} (image : List UInt8)
    (accesses : List Access) (value : size.Value) (h : ¬ Writable address size.bytes) :
    mapAfter image (accesses ++ [.write size address value]) = mapAfter image accesses := by
  funext other
  rw [mapAfter_concat, Access.puts, if_neg h, Option.getD_none]

theorem accessAll_concat (memory : Memory) (accesses : List Access) (access : Access) :
    memory.accessAll (accesses ++ [access]) = (memory.accessAll accesses).access access :=
  List.foldl_append

/-- The memory holds the map at any time. The induction is from the last access backwards, as the
last write decides. -/
theorem load_accessAll (image : List UInt8) (accesses : List Access) :
    ByteAddressed.load ((ofImage image).accessAll accesses) = mapAfter image accesses := by
  induction accesses using List.reverseRecOn with
  | nil =>
    funext address
    show (if address.toNat < romEnd then image.toArray.getD address.toNat 0
      else ByteMap.zeros.load address) = if address.toNat < romEnd then _ else _
    simp
  | append_singleton accesses access ih =>
    funext address
    rw [accessAll_concat, load_access, ih, mapAfter_concat]

/-! ## Answers -/

/-- What a memory that was filled from an image answers after accesses. -/
structure AnswersFromMap (image : List UInt8) (accesses : List Access) : Prop where
  read_eq (size : AccessSize) (address : UInt32) :
    (Bus.readSized ((ofImage image).accessAll accesses) size address).map Value.toNat
      = if Readable address size.bytes then
          some (BigEndian.decode ((mapAfter image accesses).bytes address size.bytes))
        else none
  /-- An accepted write leads to the next memory of the sequence. -/
  write_eq (size : AccessSize) (address : UInt32) (value : size.Value) :
    Bus.writeSized ((ofImage image).accessAll accesses) size address value
      = if Writable address size.bytes then
          some ((ofImage image).accessAll (accesses ++ [.write size address value]))
        else none
  bytes_written {size : AccessSize} {address : UInt32} (value : size.Value) :
    Writable address size.bytes →
      (mapAfter image (accesses ++ [.write size address value])).bytes address size.bytes
        = BigEndian.encode size.bytes value.toNat
  frame {size : AccessSize} {address other : UInt32} (value : size.Value) :
    ¬ Within address size.bytes other →
      mapAfter image (accesses ++ [.write size address value]) other = mapAfter image accesses other
  refused {size : AccessSize} {address : UInt32} (value : size.Value) :
    ¬ Writable address size.bytes →
      (ofImage image).accessAll (accesses ++ [.write size address value])
          = (ofImage image).accessAll accesses ∧
        mapAfter image (accesses ++ [.write size address value]) = mapAfter image accesses

/-- Accesses of all sizes agree with one and the same map, whatever came before them. -/
theorem answersFromMap_accessAll (image : List UInt8) (accesses : List Access) :
    AnswersFromMap image accesses where
  read_eq size address := by
    rw [ByteAddressed.map_toNat_readSized, read_eq, load_accessAll]
  write_eq size address value := by
    rw [accessAll_concat, Memory.access]
    split
    case isTrue hwritable =>
      cases hwrite : Bus.writeSized ((ofImage image).accessAll accesses) size address value with
      | none => exact absurd hwritable (writeSized_eq_none_iff.mp hwrite)
      | some after => rfl
    case isFalse hrefused => exact writeSized_eq_none_iff.mpr hrefused
  bytes_written {size address} value h := by
    have hlength : (BigEndian.encode size.bytes value.toNat).length ≤ 0x100000000 := by
      rw [BigEndian.length_encode]
      cases size <;> decide
    have hbytes := (mapAfter image accesses).bytes_overwrite_self address hlength
    rw [BigEndian.length_encode] at hbytes
    rw [mapAfter_write image accesses value h, hbytes]
  frame {size address other} value hout := by
    by_cases h : Writable address size.bytes
    · rw [mapAfter_write image accesses value h]
      apply Contents.overwrite_of_not_within
      rwa [BigEndian.length_encode]
    · rw [mapAfter_refused image accesses value h]
  refused value h := by
    refine ⟨?_, mapAfter_refused image accesses value h⟩
    rw [accessAll_concat, Memory.access, writeSized_eq_none_iff.mpr h, Option.getD_none]

/-- A long made of bytes of three writes. The last write would begin in the read-only memory, so it is
refused and its second byte is not put either. -/
example : Bus.read32 ((ofImage []).accessAll
    [.write .long 0x10000 (0x11223344 : UInt32), .write .word 0x10003 (0xAABB : UInt16),
      .write .byte 0x10001 (0xCC : UInt8), .write .word 0xFFFF (0xEEFF : UInt16)]) 0x10000
      = some 0x11CC33AA := by
  decide +kernel

end Memory

end M68Fpu
