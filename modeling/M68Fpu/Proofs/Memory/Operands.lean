import M68Fpu.Bytes.Lemmas
import M68Fpu.Proofs.Memory.ByteMemory
import M68Fpu.Proofs.OperandAccess

/-!
# Operands in memory, byte by byte

On a bus that is memory, an operand is one big-endian number, although those wider than 32 bits are
transferred long by long: what is read from an address are the bytes there
(`ByteMemory.readOperand_eq`), and what is written replaces them by the bytes of the number
(`ByteMemory.writeLongs_eq`). An extended slot holds a number of eight bytes in front of four zeros.
-/

namespace M68Fpu

/-! ## Adjacent bytes -/

namespace Contents

theorem bytes_add (contents : Contents) (address : UInt32) (first second : Nat) :
    contents.bytes address (first + second) =
      contents.bytes address first ++ contents.bytes (address + UInt32.ofNat first) second := by
  unfold bytes
  rw [List.range_add, List.map_append, List.map_map]
  refine congrArg _ (List.map_congr_left fun i _ => ?_)
  rw [Function.comp_apply, add_ofNat_add_ofNat]

/-- Replacing one run of bytes and then the next is replacing both. -/
theorem overwrite_append (contents : Contents) (address : UInt32) {first second : List UInt8}
    (hlength : first.length + second.length ≤ 0x100000000) :
    (contents.overwrite address first).overwrite (address + UInt32.ofNat first.length) second =
      contents.overwrite address (first ++ second) := by
  funext other
  have haddress := address.toNat_lt
  have hother := other.toNat_lt
  unfold overwrite
  by_cases h : (other - address).toNat < first.length
  · -- Counted from the second run, an address in the first one is at the far end of memory.
    have hfar : second.length ≤ (other - (address + UInt32.ofNat first.length)).toNat := by
      simp only [UInt32.toNat_sub, UInt32.toNat_add, UInt32.toNat_ofNat'] at h ⊢
      omega
    rw [List.getElem?_eq_none hfar, Option.getD_none, List.getElem?_append_left h]
  · have hbehind : (other - (address + UInt32.ofNat first.length)).toNat =
        (other - address).toNat - first.length := by
      simp only [UInt32.toNat_sub, UInt32.toNat_add, UInt32.toNat_ofNat'] at h ⊢
      omega
    have hle : first.length ≤ (other - address).toNat := Nat.le_of_not_lt h
    rw [hbehind, List.getElem?_append_right hle, List.getElem?_eq_none hle, Option.getD_none]

theorem toNat_long (contents : Contents) (address : UInt32) :
    (contents.long address).toNat = BigEndian.decode (contents.bytes address 4) := by
  have hlt := BigEndian.decode_lt (contents.bytes address 4)
  rw [length_bytes] at hlt
  rw [long, UInt32.toNat_ofNat']
  exact Nat.mod_eq_of_lt hlt

theorem toNat_word (contents : Contents) (address : UInt32) :
    (contents.word address).toNat = BigEndian.decode (contents.bytes address 2) := by
  have hlt := BigEndian.decode_lt (contents.bytes address 2)
  rw [length_bytes] at hlt
  rw [word, UInt16.toNat_ofNat']
  exact Nat.mod_eq_of_lt hlt

/-- Two longs are one number of eight bytes. -/
theorem toNat_quad (contents : Contents) (address : UInt32) :
    (contents.quad address).toNat = BigEndian.decode (contents.bytes address 8) := by
  rw [quad, toNat_joinLongs, toNat_long, toNat_long, bytes_add contents address 4 4,
    BigEndian.decode_append, length_bytes]
  rfl

end Contents

/-! ## Numbers -/

namespace Width

/-- The bytes of a number in an operand of a width. -/
def numberBytes (width : Width) : Nat := min width.bytes 8

/-- An operand of a width as it is in memory. -/
def image (width : Width) (value : UInt64) : List UInt8 :=
  BigEndian.encode width.numberBytes value.toNat ++
    List.replicate (width.bytes - width.numberBytes) 0

theorem encode_highLong_lowLong (value : UInt64) :
    BigEndian.encode 4 (highLong value).toNat ++ BigEndian.encode 4 (lowLong value).toNat =
      BigEndian.encode 8 value.toNat := by
  have hvalue := value.toNat_lt
  have hhigh : (highLong value).toNat = value.toNat / 256 ^ 4 := by
    rw [highLong, UInt32.toNat_ofNat']
    omega
  have hlow : (lowLong value).toNat = value.toNat % 256 ^ 4 := by
    rw [lowLong, UInt32.toNat_ofNat']
    rfl
  rw [hhigh, hlow, BigEndian.encode_mod, ← BigEndian.encode_add 4 4]

/-- The longs of an operand are its bytes. -/
theorem flatMap_longs {width : Width} (hwide : 4 ≤ width.bytes) (value : UInt64) :
    ((width.longs value).flatMap fun long => BigEndian.encode 4 long.toNat) =
      width.image value := by
  have hlow : BigEndian.encode 4 value.toUInt32.toNat = BigEndian.encode 4 value.toNat := by
    rw [value.toNat_toUInt32]
    exact BigEndian.encode_mod 4 value.toNat
  cases width with
  | byte | word => exact absurd hwide (by decide)
  | long =>
    show BigEndian.encode 4 value.toUInt32.toNat ++ [] = BigEndian.encode 4 value.toNat ++ []
    rw [hlow]
  | quad =>
    show BigEndian.encode 4 _ ++ (BigEndian.encode 4 _ ++ []) = BigEndian.encode 8 value.toNat ++ []
    rw [← List.append_assoc, encode_highLong_lowLong]
  | extended =>
    show BigEndian.encode 4 _ ++ (BigEndian.encode 4 _ ++ [0, 0, 0, 0]) =
      BigEndian.encode 8 value.toNat ++ [0, 0, 0, 0]
    rw [← List.append_assoc, encode_highLong_lowLong]

theorem length_longs_le (width : Width) (value : UInt64) : (width.longs value).length ≤ 3 := by
  cases width <;> exact Nat.le_of_ble_eq_true rfl

end Width

/-! ## Accesses -/

namespace ByteMemory

variable {β : Type} [Bus β] [ByteMemory β] {bus after : β} {address : UInt32}

/-- What is read is the big-endian number at the address. -/
theorem readOperand_eq {width : Width} {value : UInt64}
    (h : Bus.readOperand bus width address = some value) :
    value.toNat = BigEndian.decode ((contents bus).bytes address width.numberBytes) := by
  cases width with
  | byte =>
    obtain ⟨byte, hread, rfl⟩ := Option.map_eq_some_iff.mp h
    rw [UInt8.toNat_toUInt64, read8_eq hread]
    simp [Width.numberBytes, Width.bytes, Contents.bytes, BigEndian.decode, LittleEndian.decode]
  | word =>
    obtain ⟨word, hread, rfl⟩ := Option.map_eq_some_iff.mp h
    rw [UInt16.toNat_toUInt64, read16_eq hread]
    exact Contents.toNat_word _ _
  | long =>
    obtain ⟨long, hread, rfl⟩ := Option.map_eq_some_iff.mp h
    rw [UInt32.toNat_toUInt64, read32_eq hread]
    exact Contents.toNat_long _ _
  | quad | extended =>
    obtain ⟨high, hhigh, h⟩ := Option.bind_eq_some_iff.mp h
    obtain ⟨low, hlow, h⟩ := Option.bind_eq_some_iff.mp h
    cases h
    rw [read32_eq hhigh, read32_eq hlow]
    exact Contents.toNat_quad _ _

theorem contents_writeLongs {values : List UInt32} (hlength : 4 * values.length ≤ 0x100000000)
    (h : Bus.writeLongs bus address values = some after) :
    contents after = (contents bus).overwrite address
      (values.flatMap fun value => BigEndian.encode 4 value.toNat) := by
  induction values generalizing bus address with
  | nil =>
    cases h
    rfl
  | cons value rest ih =>
    obtain ⟨middle, hwrite, hrest⟩ := Option.bind_eq_some_iff.mp h
    have hbytes : (rest.flatMap fun value => BigEndian.encode 4 value.toNat).length =
        4 * rest.length := by
      simp only [List.length_flatMap, BigEndian.length_encode, List.map_const',
        List.sum_replicate_nat, Nat.mul_comm]
    have htotal : (BigEndian.encode 4 value.toNat).length +
        (rest.flatMap fun value => BigEndian.encode 4 value.toNat).length ≤ 0x100000000 := by
      rw [BigEndian.length_encode, hbytes]
      rw [List.length_cons] at hlength
      omega
    have happend := (contents bus).overwrite_append address htotal
    rw [BigEndian.length_encode] at happend
    rw [List.length_cons] at hlength
    rw [ih (by omega) hrest, write32_eq hwrite, List.flatMap_cons]
    exact happend

/-- What is written is the operand, and nothing else changes. -/
theorem writeLongs_eq {width : Width} (hwide : 4 ≤ width.bytes) {value : UInt64}
    (h : Bus.writeLongs bus address (width.longs value) = some after) :
    contents after = (contents bus).overwrite address (width.image value) := by
  have hlength := width.length_longs_le value
  rw [contents_writeLongs (by omega) h, Width.flatMap_longs hwide]

end ByteMemory

end M68Fpu
