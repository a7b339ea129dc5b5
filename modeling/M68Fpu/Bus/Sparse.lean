import M68Fpu.Bus.ByteAddressed
import M68Fpu.Bus.ByteMap

/-!
# Sparse memory

All of the 32-bit address space, with ranges in which every access is refused. An access may wrap
from the last address to the first.
-/

namespace M68Fpu

/-- A range of addresses, both ends included. -/
structure AddressRange where
  first : UInt32
  last : UInt32
  deriving DecidableEq, Repr

def AddressRange.contains (range : AddressRange) (address : UInt32) : Bool :=
  decide (range.first ≤ address ∧ address ≤ range.last)

/-- Memory over the whole address space. -/
structure SparseMemory where
  /-- The ranges in which accesses are refused. -/
  refused : List AddressRange := []
  contents : ByteMap := ByteMap.zeros
  /-- Whether branches are counted. -/
  tracing : Bool := true
  branches : Nat := 0

namespace SparseMemory

/-- Whether none of the bytes of a range is in a refused one. -/
def allowed (memory : SparseMemory) (address : UInt32) : (count : Nat) → Bool
  | 0 => true
  | count + 1 =>
    !(memory.refused.any fun range => range.contains address) && allowed memory (address + 1) count

instance : ByteAddressed SparseMemory where
  readable := allowed
  writable := allowed
  load memory address := memory.contents.load address
  store memory address byte := { memory with contents := memory.contents.store address byte }
  traceBranch memory :=
    if memory.tracing then { memory with branches := memory.branches + 1 } else memory

end SparseMemory

end M68Fpu
