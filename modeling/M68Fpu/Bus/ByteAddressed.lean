import M68Fpu.Bus.Basic
import M68Fpu.Bytes

/-!
# Buses made of bytes

A bus that is nothing but bytes and a rule for which ranges may be used. Wider accesses are
big-endian and their addresses wrap at the end of the address space; an access is accepted or
refused as a whole, and a refused one changes nothing.
-/

namespace M68Fpu

/-- Bytes under 32-bit addresses, and the ranges of them that may be read and written. -/
class ByteAddressed (β : Type) where
  /-- Whether the `count` bytes from `address` on may be read as one. -/
  readable : β → (address : UInt32) → (count : Nat) → Bool
  /-- Whether the `count` bytes from `address` on may be written as one. -/
  writable : β → (address : UInt32) → (count : Nat) → Bool
  load : β → (address : UInt32) → UInt8
  store : β → (address : UInt32) → (byte : UInt8) → β
  traceBranch : β → β

namespace ByteAddressed

variable {β : Type} [ByteAddressed β]

/-- The `count` bytes from `address` on. -/
def loadBytes (bus : β) (address : UInt32) : (count : Nat) → List UInt8
  | 0 => []
  | count + 1 => load bus address :: loadBytes bus (address + 1) count

/-- Replaces the bytes from `address` on. -/
def storeBytes (bus : β) (address : UInt32) : List UInt8 → β
  | [] => bus
  | byte :: rest => storeBytes (store bus address byte) (address + 1) rest

/-- A big-endian number of `count` bytes. -/
def read (bus : β) (address : UInt32) (count : Nat) : Option Nat :=
  if readable bus address count then some (BigEndian.decode (loadBytes bus address count)) else none

/-- Writes a big-endian number of `count` bytes. -/
def write (bus : β) (address : UInt32) (count value : Nat) : Option β :=
  if writable bus address count then
    some (storeBytes bus address (BigEndian.encode count value))
  else
    none

instance : Bus β where
  read8 bus address := (read bus address 1).map UInt8.ofNat
  read16 bus address := (read bus address 2).map UInt16.ofNat
  read32 bus address := (read bus address 4).map UInt32.ofNat
  write8 bus address value := write bus address 1 value.toNat
  write16 bus address value := write bus address 2 value.toNat
  write32 bus address value := write bus address 4 value.toNat
  traceBranch := ByteAddressed.traceBranch

end ByteAddressed

end M68Fpu
