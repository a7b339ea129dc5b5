import M68Fpu.Instruction.Operand
import M68Fpu.Machine.Basic

/-!
# Access to operands

From places to addresses, and operands of every width in registers and in memory. Operands wider
than 32 bits are transferred long by long, the highest first.
-/

namespace M68Fpu

namespace Exec

variable {β : Type}

/-- The address of a place. An incremented register is used before it moves, a decremented one
after. -/
def address (width : Width) : Reference → Exec β UInt32
  | .indirect n => return (← cpu).address.get n
  | .postIncrement n => do
    let address := (← cpu).address.get n
    setAddress n (address + width.step n)
    return address
  | .preDecrement n => do
    let address := (← cpu).address.get n - width.step n
    setAddress n address
    return address
  | .displaced n displacement => return (← cpu).address.get n + displacement
  | .indexed n index => do
    let cpu ← cpu
    return cpu.address.get n + index.offset cpu
  | .absolute address => pure address

variable [Bus β]

/-- Reads an operand in memory. Of an extended slot only the double counts, not what fills it up. -/
def readMemory (width : Width) (address : UInt32) : Exec β UInt64 :=
  match width with
  | .byte => return (← readByte address).toUInt64
  | .word => return (← readWord address).toUInt64
  | .long => return (← readLong address).toUInt64
  | .quad | .extended => do
    let high ← readLong address
    let low ← readLong (address + 4)
    return joinLongs high low

/-- Writes an operand in memory. An extended slot is filled up with zeros. -/
def writeMemory (width : Width) (address : UInt32) (value : UInt64) : Exec β Unit :=
  match width with
  | .byte => writeByte address value.toUInt8
  | .word => writeWord address value.toUInt16
  | .long => writeLong address value.toUInt32
  | .quad => do
    writeLong address (highLong value)
    writeLong (address + 4) (lowLong value)
  | .extended => do
    writeLong address (highLong value)
    writeLong (address + 4) (lowLong value)
    writeLong (address + 8) 0

/-- Reads a source operand. A data register comes whole; its low bits are the operand. -/
def readOperand (width : Width) : Operand → Exec β UInt64
  | .dataRegister n => return ((← cpu).data.get n).toUInt64
  | .immediate value => pure value
  | .memory place => do readMemory width (← address width place)

def writeDestination (width : Width) (value : UInt64) : Destination → Exec β Unit
  | .dataRegister n => setData n value.toUInt32
  | .memory place => do writeMemory width (← address width place) value

end Exec

end M68Fpu
