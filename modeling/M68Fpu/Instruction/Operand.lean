import M68Fpu.Binary.Integer
import M68Fpu.Binary.Single
import M68Fpu.Fault
import M68Fpu.Registers
import M68Fpu.Word

/-!
# Operands

What is known of an operand once its extension words and its immediate data have been read: where it
is, and in which of the implemented formats. Addresses still depend on the address registers.
-/

namespace M68Fpu

/-! ## Formats that can be transferred -/

inductive LoadFormat where
  | byteInteger
  | wordInteger
  | longInteger
  | single
  | double
  deriving DecidableEq, Repr

namespace LoadFormat

/-- The width of an operand. -/
def width : LoadFormat → Width
  | byteInteger => .byte
  | wordInteger => .word
  | longInteger | single => .long
  | double => .quad

/-- The double that the low bits of `raw` stand for. Integers are signed; all conversions are
exact. -/
def value (format : LoadFormat) (raw : UInt64) : Double :=
  match format with
  | byteInteger => Double.ofInt raw.toUInt8.toInt8.toInt
  | wordInteger => Double.ofInt raw.toUInt16.toInt16.toInt
  | longInteger => Double.ofInt raw.toUInt32.toInt32.toInt
  | single => (Single.mk raw.toUInt32).widen
  | double => ⟨raw⟩

end LoadFormat

inductive StoreFormat where
  | longInteger
  | single
  | double
  deriving DecidableEq, Repr

namespace StoreFormat

def width : StoreFormat → Width
  | longInteger | single => .long
  | double => .quad

/-- The bits that stand for a double, as well as the format can. -/
def encode (format : StoreFormat) (x : Double) : UInt64 :=
  match format with
  | longInteger => (UInt32.ofInt x.toLong).toUInt64
  | single => x.narrow.bits.toUInt64
  | double => x.bits

end StoreFormat

namespace Format

/-- The format of a source operand, or why there is none. -/
def loadFormat : Format → Except DecodeError LoadFormat
  | byteInteger => .ok .byteInteger
  | wordInteger => .ok .wordInteger
  | longInteger => .ok .longInteger
  | single => .ok .single
  | double => .ok .double
  | extended => .error (.unimplementedFormat extended .read)
  | packed => .error (.unimplementedFormat packed .read)
  | packedDynamic => .error .invalidSource

/-- The format in which a register is stored, or why there is none. -/
def storeFormat : Format → Except DecodeError StoreFormat
  | longInteger => .ok .longInteger
  | single => .ok .single
  | double => .ok .double
  | format => .error (.unimplementedFormat format .write)

end Format

/-! ## Index extension words -/

/-- The index of an indexed address: a register, whole or its low word, scaled and displaced. -/
structure Index where
  /-- Whether the register is an address register and not a data register. -/
  isAddress : Bool
  register : Fin 8
  /-- Whether the whole register counts and not its sign-extended low word. -/
  isLong : Bool
  /-- The binary logarithm of the scale. -/
  scale : Fin 4
  displacement : UInt32
  deriving DecidableEq, Repr

namespace Index

/-- The index of an extension word in the brief format; bit 8 marks the full format. -/
def decode (extension : UInt16) : Option Index :=
  if bitField extension 8 1 = 1 then none
  else some {
    isAddress := bitField extension 15 1 = 1
    register := octalField extension 12
    isLong := bitField extension 11 1 = 1
    scale := ⟨bitField extension 9 2, bitField_lt extension 9 2⟩
    displacement := signExtendByte extension.toUInt8 }

/-- What an index adds to the base address. -/
def offset (index : Index) (cpu : Cpu) : UInt32 :=
  let register :=
    if index.isAddress then cpu.address.get index.register else cpu.data.get index.register
  let count := if index.isLong then register else signExtendWord register.toUInt16
  (count <<< UInt32.ofNat index.scale) + index.displacement

end Index

/-! ## Places -/

/-- A place in memory, as far as the instruction stream tells. -/
inductive Reference where
  | indirect (n : Fin 8)
  | postIncrement (n : Fin 8)
  | preDecrement (n : Fin 8)
  | displaced (n : Fin 8) (displacement : UInt32)
  | indexed (n : Fin 8) (index : Index)
  | absolute (address : UInt32)
  deriving DecidableEq, Repr

inductive Operand where
  | dataRegister (n : Fin 8)
  | immediate (value : UInt64)
  | memory (place : Reference)
  deriving DecidableEq, Repr

/-- A destination outside the FPU. -/
inductive Destination where
  | dataRegister (n : Fin 8)
  | memory (place : Reference)
  deriving DecidableEq, Repr

end M68Fpu
