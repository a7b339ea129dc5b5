/-!
# Byte orders

A natural number as a fixed count of bytes, in either order. The bus is big-endian; the register
image of a debugger is little-endian.
-/

namespace M68Fpu

/-! ## Little-endian -/

namespace LittleEndian

/-- The `count` lowest bytes of a number, lowest first. -/
def encode : (count : Nat) → (value : Nat) → List UInt8
  | 0, _ => []
  | count + 1, value => UInt8.ofNat value :: encode count (value / 256)

/-- The number whose bytes, lowest first, are given. -/
def decode : List UInt8 → Nat
  | [] => 0
  | byte :: rest => byte.toNat + 256 * decode rest

@[simp] theorem length_encode (count value : Nat) : (encode count value).length = count := by
  induction count generalizing value with
  | zero => rfl
  | succ count ih => simp [encode, ih]

end LittleEndian

/-! ## Big-endian -/

namespace BigEndian

/-- The `count` lowest bytes of a number, highest first. -/
def encode (count value : Nat) : List UInt8 :=
  (LittleEndian.encode count value).reverse

/-- The number whose bytes, highest first, are given. -/
def decode (bytes : List UInt8) : Nat :=
  LittleEndian.decode bytes.reverse

@[simp] theorem length_encode (count value : Nat) : (encode count value).length = count := by
  simp [encode]

end BigEndian

end M68Fpu
