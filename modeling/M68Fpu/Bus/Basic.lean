/-!
# The bus

What the processor sees of the memory around it: reads and writes of one, two and four bytes at
32-bit addresses, each of which may be refused, and a hook that runs before a branch is taken. A
read leaves the bus as it was. Nothing else is asked of a bus, so that statements about the
processor hold for every one.
-/

namespace M68Fpu

/-- A bus whose states are `β`. A refused access answers `none`. -/
class Bus (β : Type) where
  read8 : β → (address : UInt32) → Option UInt8
  read16 : β → (address : UInt32) → Option UInt16
  read32 : β → (address : UInt32) → Option UInt32
  write8 : β → (address : UInt32) → (value : UInt8) → Option β
  write16 : β → (address : UInt32) → (value : UInt16) → Option β
  write32 : β → (address : UInt32) → (value : UInt32) → Option β
  traceBranch : β → β

namespace Bus

variable {β : Type} [Bus β]

/-! ## Ranges, byte by byte -/

/-- Reads bytes one by one, unless one of them is refused. -/
def readBytes (bus : β) (address : UInt32) : (count : Nat) → Option (List UInt8)
  | 0 => some []
  | count + 1 => do
    let byte ← read8 bus address
    let rest ← readBytes bus (address + 1) count
    return byte :: rest

/-- Writes bytes one by one up to the first that is refused, and says whether there was none. -/
def writeBytes (bus : β) (address : UInt32) : List UInt8 → Bool × β
  | [] => (true, bus)
  | byte :: rest =>
    match write8 bus address byte with
    | some bus => writeBytes bus (address + 1) rest
    | none => (false, bus)

end Bus

/-! ## What happens on a bus -/

/-- The sizes of an access. -/
inductive AccessSize where
  | byte
  | word
  | long
  deriving DecidableEq, Repr

/-- The bits of an access. -/
def AccessSize.bits : AccessSize → Nat
  | byte => 8
  | word => 16
  | long => 32

/-- The address spaces of reads: the instruction stream, and everything that an instruction reads on
its own account. -/
inductive Space where
  | program
  | data
  deriving DecidableEq, Repr

/-- One use of the bus. -/
inductive BusEvent where
  /-- A read, with the value that came back unless the bus refused. -/
  | read (space : Space) (size : AccessSize) (address : UInt32) (value : Option UInt32)
  /-- A write, and whether the bus accepted it. -/
  | write (size : AccessSize) (address : UInt32) (value : UInt32) (accepted : Bool)
  /-- The hook before a branch. -/
  | branch
  deriving DecidableEq, Repr

end M68Fpu
