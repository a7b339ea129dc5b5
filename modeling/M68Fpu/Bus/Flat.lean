import M68Fpu.Bus.ByteAddressed
import M68Fpu.Bus.ByteMap

/-!
# Flat memory

A single run of bytes from address zero up, all of it readable and writable.
-/

namespace M68Fpu

/-- Memory of `size` bytes from address zero on. -/
structure FlatMemory where
  size : Nat
  contents : ByteMap := ByteMap.zeros
  branches : Nat := 0

namespace FlatMemory

/-- Whether a range ends within the memory. An address does not wrap. -/
def inside (memory : FlatMemory) (address : UInt32) (count : Nat) : Bool :=
  decide (address.toNat + count ≤ memory.size)

instance : ByteAddressed FlatMemory where
  readable := inside
  writable := inside
  load memory address := memory.contents.load address
  store memory address byte := { memory with contents := memory.contents.store address byte }
  traceBranch memory := { memory with branches := memory.branches + 1 }

/-- Memory of `size` bytes, zero but for a program at `base`. -/
def ofProgram (size : Nat) (base : UInt32) (program : List UInt8) : FlatMemory :=
  ByteAddressed.storeBytes { size } base program

end FlatMemory

end M68Fpu
