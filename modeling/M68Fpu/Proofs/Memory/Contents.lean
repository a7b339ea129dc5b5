import M68Fpu.Bytes.Lemmas
import M68Fpu.Word

/-!
# Memory contents

Memory as a function from addresses to bytes, apart from any bus. Wider numbers are big-endian and
their addresses wrap at the end of the address space, so a range is a first address and a count, and
an address lies in it if its distance from the first address is below the count (`Within`).

The laws are those of a store: a number that was put is read back (`long_putLong_self`), and
everything outside its bytes is as before (`putLong_of_not_within`, `long_putLong_of_apart`).
-/

namespace M68Fpu

/-! ## Ranges of addresses -/

/-- Whether an address is one of the `count` addresses from `first` on. -/
def Within (first : UInt32) (count : Nat) (address : UInt32) : Prop :=
  (address - first).toNat < count

instance (first : UInt32) (count : Nat) (address : UInt32) :
    Decidable (Within first count address) :=
  inferInstanceAs (Decidable ((address - first).toNat < count))

/-- Whether two ranges have no address in common. -/
def Apart (first : UInt32) (count : Nat) (other : UInt32) (otherCount : Nat) : Prop :=
  ∀ address, Within first count address → ¬ Within other otherCount address

/-- Distances from the first address of a range are counted without a carry. -/
theorem toNat_add_ofNat_sub (first : UInt32) {i : Nat} (hi : i < 0x100000000) :
    (first + UInt32.ofNat i - first).toNat = i := by
  have hfirst := first.toNat_lt
  simp only [UInt32.toNat_sub, UInt32.toNat_add, UInt32.toNat_ofNat']
  omega

/-- An address is its distance away from any other. -/
theorem add_ofNat_toNat_sub (first address : UInt32) :
    first + UInt32.ofNat (address - first).toNat = address := by
  rw [UInt32.ofNat_toNat, UInt32.add_comm, UInt32.sub_add_cancel]

theorem within_add {first : UInt32} {count i : Nat} (hi : i < count) (hcount : i < 0x100000000) :
    Within first count (first + UInt32.ofNat i) := by
  unfold Within
  rw [toNat_add_ofNat_sub first hcount]
  exact hi

/-- Two ranges that start at different distances from a common address are apart if the first ends
before the second begins and neither runs around the address space. -/
theorem apart_of_offsets (base : UInt32) (low high : Nat) {count otherCount : Nat}
    (hlow : low + count ≤ high) (hhigh : high + otherCount ≤ 0x100000000) :
    Apart (base + UInt32.ofNat low) count (base + UInt32.ofNat high) otherCount := by
  intro address hfirst hother
  have hbase := base.toNat_lt
  have haddress := address.toNat_lt
  -- The distances from both ranges back to the base can be compared, as neither wraps around.
  simp only [Within, UInt32.toNat_sub, UInt32.toNat_add, UInt32.toNat_ofNat'] at hfirst hother
  omega

theorem Apart.symm {first other : UInt32} {count otherCount : Nat}
    (h : Apart first count other otherCount) : Apart other otherCount first count :=
  fun address hother hfirst => h address hfirst hother

theorem sub_ofNat_sub_ofNat (address : UInt32) (i j : Nat) :
    address - UInt32.ofNat i - UInt32.ofNat j = address - UInt32.ofNat (i + j) := by
  apply UInt32.toNat_inj.mp
  have haddress := address.toNat_lt
  simp only [UInt32.toNat_sub, UInt32.toNat_ofNat']
  omega

theorem add_ofNat_add_ofNat (address : UInt32) (i j : Nat) :
    address + UInt32.ofNat i + UInt32.ofNat j = address + UInt32.ofNat (i + j) := by
  rw [UInt32.ofNat_add, UInt32.add_assoc]

theorem sub_ofNat_add_ofNat (address : UInt32) (i j : Nat) :
    address - UInt32.ofNat (i + j) + UInt32.ofNat j = address - UInt32.ofNat i := by
  rw [← sub_ofNat_sub_ofNat, UInt32.sub_add_cancel]

/-- A range that begins inside another one and does not run past its end is contained in it. -/
theorem within_of_within_offset {first address : UInt32} (offset : Nat) {count whole : Nat}
    (hoffset : offset + count ≤ whole) (hwhole : whole ≤ 0x100000000)
    (h : Within (first + UInt32.ofNat offset) count address) : Within first whole address := by
  have hfirst := first.toNat_lt
  have haddress := address.toNat_lt
  simp only [Within, UInt32.toNat_sub, UInt32.toNat_add, UInt32.toNat_ofNat'] at h ⊢
  omega

/-- A range has no address in common with one that ends where it begins. -/
theorem not_within_below {first address : UInt32} {count below : Nat}
    (hbytes : below + count ≤ 0x100000000) (h : Within first count address) :
    ¬ Within (first - UInt32.ofNat below) below address := by
  have hfirst := first.toNat_lt
  have haddress := address.toNat_lt
  simp only [Within, UInt32.toNat_sub, UInt32.toNat_ofNat'] at h ⊢
  omega

/-! ## Bytes and numbers -/

/-- What memory holds: a byte under every address. -/
abbrev Contents := UInt32 → UInt8

namespace Contents

/-- The `count` bytes from `address` on. -/
def bytes (contents : Contents) (address : UInt32) (count : Nat) : List UInt8 :=
  (List.range count).map fun i => contents (address + UInt32.ofNat i)

def word (contents : Contents) (address : UInt32) : UInt16 :=
  UInt16.ofNat (BigEndian.decode (contents.bytes address 2))

def long (contents : Contents) (address : UInt32) : UInt32 :=
  UInt32.ofNat (BigEndian.decode (contents.bytes address 4))

/-- The 64-bit number at an address. -/
def quad (contents : Contents) (address : UInt32) : UInt64 :=
  joinLongs (contents.long address) (contents.long (address + 4))

/-- The contents with the bytes from `address` on replaced. -/
def overwrite (contents : Contents) (address : UInt32) (data : List UInt8) : Contents :=
  fun other => data[(other - address).toNat]?.getD (contents other)

/-- The contents with a long put at an address. -/
def putLong (contents : Contents) (address value : UInt32) : Contents :=
  contents.overwrite address (BigEndian.encode 4 value.toNat)

@[simp] theorem length_bytes (contents : Contents) (address : UInt32) (count : Nat) :
    (contents.bytes address count).length = count := by
  simp [bytes]

/-- A part of a range is a range. -/
theorem take_drop_bytes (contents : Contents) (address : UInt32) {offset count whole : Nat}
    (h : offset + count ≤ whole) :
    ((contents.bytes address whole).drop offset).take count
      = contents.bytes (address + UInt32.ofNat offset) count := by
  apply List.ext_getElem
  · simp only [List.length_take, List.length_drop, length_bytes]
    omega
  · intro i _ _
    simp only [bytes, List.getElem_take, List.getElem_drop, List.getElem_map, List.getElem_range,
      add_ofNat_add_ofNat]

theorem bytes_congr {first second : Contents} {address : UInt32} {count : Nat}
    (h : ∀ other, Within address count other → first other = second other)
    (hcount : count ≤ 0x100000000) : first.bytes address count = second.bytes address count := by
  unfold bytes
  apply List.map_congr_left
  intro i hi
  have hi : i < count := List.mem_range.mp hi
  exact h _ (within_add hi (by omega))

theorem word_congr {first second : Contents} {address : UInt32}
    (h : ∀ other, Within address 2 other → first other = second other) :
    first.word address = second.word address := by
  unfold word
  rw [bytes_congr h (by omega)]

theorem long_congr {first second : Contents} {address : UInt32}
    (h : ∀ other, Within address 4 other → first other = second other) :
    first.long address = second.long address := by
  unfold long
  rw [bytes_congr h (by omega)]

/-! ## Replaced bytes -/

theorem overwrite_of_not_within {contents : Contents} {address other : UInt32} {data : List UInt8}
    (h : ¬ Within address data.length other) :
    contents.overwrite address data other = contents other := by
  have hlength : data.length ≤ (other - address).toNat := Nat.le_of_not_lt h
  simp only [overwrite, List.getElem?_eq_none hlength, Option.getD_none]

theorem bytes_overwrite_self (contents : Contents) (address : UInt32) {data : List UInt8}
    (hlength : data.length ≤ 0x100000000) :
    (contents.overwrite address data).bytes address data.length = data := by
  apply List.ext_getElem
  · simp
  · intro i hi hdata
    have hdistance := toNat_add_ofNat_sub address (i := i) (by omega)
    simp only [bytes, List.getElem_map, List.getElem_range, overwrite, hdistance,
      List.getElem?_eq_getElem hdata, Option.getD_some]

theorem putLong_of_not_within {contents : Contents} {address value other : UInt32}
    (h : ¬ Within address 4 other) : contents.putLong address value other = contents other := by
  unfold putLong
  apply overwrite_of_not_within
  rwa [BigEndian.length_encode]

@[simp] theorem long_putLong_self (contents : Contents) (address value : UInt32) :
    (contents.putLong address value).long address = value := by
  have hvalue := value.toNat_lt
  have hbytes : (contents.putLong address value).bytes address 4
      = BigEndian.encode 4 value.toNat := by
    have hlength : (BigEndian.encode 4 value.toNat).length ≤ 0x100000000 := by
      rw [BigEndian.length_encode]
      omega
    have h := bytes_overwrite_self contents address hlength
    rwa [BigEndian.length_encode] at h
  apply UInt32.toNat_inj.mp
  rw [long, hbytes, BigEndian.decode_encode, UInt32.toNat_ofNat']
  omega

theorem long_putLong_of_apart {contents : Contents} {address value other : UInt32}
    (h : Apart other 4 address 4) :
    (contents.putLong address value).long other = contents.long other :=
  long_congr fun _ hother => putLong_of_not_within (h _ hother)

theorem quad_congr {first second : Contents} {address : UInt32}
    (h : ∀ other, Within address 8 other → first other = second other) :
    first.quad address = second.quad address := by
  have hlow (other : UInt32) (hother : Within address 4 other) : Within address 8 other :=
    Nat.lt_trans hother (by omega)
  have hhigh (other : UInt32) (hother : Within (address + 4) 4 other) : Within address 8 other :=
    within_of_within_offset 4 (by omega) (by omega) hother
  unfold quad
  rw [long_congr fun other hother => h other (hlow other hother),
    long_congr fun other hother => h other (hhigh other hother)]

/-! ## Extended slots -/

/-- The contents with a 64-bit number put into a slot of twelve bytes, filled up with zeros. -/
def putSlot (contents : Contents) (slot : UInt32) (bits : UInt64) : Contents :=
  ((contents.putLong slot (highLong bits)).putLong (slot + 4) (lowLong bits)).putLong (slot + 8) 0

theorem putSlot_of_not_within {contents : Contents} {slot other : UInt32} {bits : UInt64}
    (h : ¬ Within slot 12 other) : contents.putSlot slot bits other = contents other := by
  have hlong (offset : Nat) (hoffset : offset + 4 ≤ 12) :
      ¬ Within (slot + UInt32.ofNat offset) 4 other :=
    fun hwithin => h (within_of_within_offset offset hoffset (by omega) hwithin)
  have hfirst : ¬ Within slot 4 other := by simpa using hlong 0 (by omega)
  have hsecond : ¬ Within (slot + 4) 4 other := hlong 4 (by omega)
  have hpadding : ¬ Within (slot + 8) 4 other := hlong 8 (by omega)
  unfold putSlot
  rw [putLong_of_not_within hpadding, putLong_of_not_within hsecond, putLong_of_not_within hfirst]

@[simp] theorem long_putSlot_padding (contents : Contents) (slot : UInt32) (bits : UInt64) :
    (contents.putSlot slot bits).long (slot + 8) = 0 :=
  long_putLong_self _ _ _

@[simp] theorem quad_putSlot_self (contents : Contents) (slot : UInt32) (bits : UInt64) :
    (contents.putSlot slot bits).quad slot = bits := by
  have hslot : slot + UInt32.ofNat 0 = slot := by simp
  have hsecond : Apart (slot + UInt32.ofNat 0) 4 (slot + 4) 4 :=
    apart_of_offsets slot 0 4 (by omega) (by omega)
  have hpadding : Apart (slot + UInt32.ofNat 0) 4 (slot + 8) 4 :=
    apart_of_offsets slot 0 8 (by omega) (by omega)
  rw [hslot] at hsecond hpadding
  -- The three longs of a slot are written one after the other and do not meet.
  have hpadding' : Apart (slot + 4) 4 (slot + 8) 4 :=
    apart_of_offsets slot 4 8 (by omega) (by omega)
  unfold quad putSlot
  rw [long_putLong_of_apart hpadding, long_putLong_of_apart hsecond, long_putLong_self,
    long_putLong_of_apart hpadding', long_putLong_self, joinLongs_highLong_lowLong]

end Contents

end M68Fpu
