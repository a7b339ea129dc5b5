import Std.Data.TreeMap

/-!
# Byte maps

Contents of a 32-bit address space, byte by byte, zero wherever nothing was written. Only written
bytes take room.
-/

namespace M68Fpu

/-- Contents of a 32-bit address space. -/
structure ByteMap where
  written : Std.TreeMap UInt32 UInt8

namespace ByteMap

def zeros : ByteMap := ⟨∅⟩

instance : Inhabited ByteMap := ⟨zeros⟩

def load (contents : ByteMap) (address : UInt32) : UInt8 := contents.written.getD address 0

def store (contents : ByteMap) (address : UInt32) (byte : UInt8) : ByteMap :=
  ⟨contents.written.insert address byte⟩

@[simp] theorem load_zeros (address : UInt32) : zeros.load address = 0 := by
  simp [load, zeros]

theorem load_store (contents : ByteMap) (address other : UInt32) (byte : UInt8) :
    (contents.store address byte).load other =
      if other = address then byte else contents.load other := by
  simp only [load, store, Std.TreeMap.getD_insert, Std.LawfulEqCmp.compare_eq_iff_eq]
  by_cases h : address = other <;> simp [h, eq_comm]

end ByteMap

end M68Fpu
