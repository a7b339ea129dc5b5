import M68Fpu.Bus.ByteAddressed
import M68Fpu.Bus.ByteMap

/-!
# The memory map of the computer

Read-only memory in the first 64 KiB, filled from an image, and random access memory above it up to
16 MiB. An access lies in one of the two or is refused.
-/

namespace M68Fpu

/-- The computer's memory. -/
structure Memory where
  /-- What the read-only memory was filled from. Bytes past its end read as zero, and bytes past the
  end of the read-only memory are never seen. -/
  image : Array UInt8
  ram : ByteMap := ByteMap.zeros
  branches : Nat := 0

namespace Memory

def romEnd : Nat := 0x10000

def ramEnd : Nat := 0x1000000

/-- Whether a range lies wholly in the read-only memory. -/
def inRom (address : UInt32) (count : Nat) : Bool := decide (address.toNat + count ≤ romEnd)

/-- Whether a range lies wholly in the random access memory. -/
def inRam (address : UInt32) (count : Nat) : Bool :=
  decide (romEnd ≤ address.toNat ∧ address.toNat + count ≤ ramEnd)

instance : ByteAddressed Memory where
  readable _ address count := inRom address count || inRam address count
  writable _ address count := inRam address count
  load memory address :=
    if address.toNat < romEnd then memory.image.getD address.toNat 0 else memory.ram.load address
  store memory address byte := { memory with ram := memory.ram.store address byte }
  traceBranch memory := { memory with branches := memory.branches + 1 }

/-- The memory of a computer with a given image. -/
def ofImage (image : List UInt8) : Memory := { image := image.toArray }

end Memory

end M68Fpu
