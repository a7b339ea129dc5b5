import M68Fpu.Encoding.Field

/-!
# Command words

The second word of a general instruction. Its top three bits are the class of the command; the other
fields are data formats, operation codes, register numbers and register lists.
-/

namespace M68Fpu

/-! ## Data formats -/

/-- The data formats that a command can name. -/
inductive Format where
  | longInteger
  | single
  | extended
  | packed
  | wordInteger
  | double
  | byteInteger
  | packedDynamic
  deriving DecidableEq, Repr

namespace Format

def decode : (code : Fin 8) → Format
  | 0 => longInteger
  | 1 => single
  | 2 => extended
  | 3 => packed
  | 4 => wordInteger
  | 5 => double
  | 6 => byteInteger
  | 7 => packedDynamic

/-- The name of a format in messages; both packed formats have the same. -/
def text : Format → String
  | longInteger => "long-word integer"
  | single => "single-precision real"
  | extended => "extended-precision real"
  | packed | packedDynamic => "packed-decimal real"
  | wordInteger => "word integer"
  | double => "double-precision real"
  | byteInteger => "byte integer"

end Format

/-! ## Arithmetic operations -/

/-- The operations of the arithmetic class. -/
inductive Opmode where
  | move
  | sqrt
  | abs
  | neg
  | div
  | add
  | mul
  | sub
  | cmp
  | tst
  deriving DecidableEq, Repr

namespace Opmode

/-- The operation of a code, if it has one. -/
def decode : (code : UInt8) → Option Opmode
  | 0x00 => some move
  | 0x04 => some sqrt
  | 0x18 => some abs
  | 0x1A => some neg
  | 0x20 => some div
  | 0x22 => some add
  | 0x23 => some mul
  | 0x28 => some sub
  | 0x38 => some cmp
  | 0x3A => some tst
  | _ => none

def cycles : Opmode → Nat
  | move => 4
  | sqrt => 109
  | abs | neg => 3
  | div => 43
  | add | sub => 9
  | mul => 11
  | cmp | tst => 7

/-- Whether the result goes to the destination register. Comparisons and tests only report it. -/
def writesBack : Opmode → Bool
  | cmp | tst => false
  | _ => true

/-- Whether the result is reported in the condition codes. -/
def setsConditionCodes : Opmode → Bool
  | move | div => false
  | _ => true

end Opmode

/-! ## Control registers -/

/-- The registers that the control class moves. -/
inductive ControlRegister where
  | fpiar
  | fpsr
  | fpcr
  deriving DecidableEq, Repr

/-- The control register of a selector, which has one bit per register and must name exactly one. -/
def ControlRegister.decode : (select : UInt8) → Option ControlRegister
  | 1 => some fpiar
  | 2 => some fpsr
  | 4 => some fpcr
  | _ => none

/-! ## Commands -/

/-- Where an arithmetic command finds its source. -/
inductive CommandSource where
  | register (n : Fin 8)
  | memory (format : Format)
  deriving DecidableEq, Repr

/-- The fields of a command word, by class. -/
inductive Command where
  | arithmetic (source : CommandSource) (destination : Fin 8) (opmode : UInt8)
  | moveToMemory (format : Format) (source : Fin 8)
  | moveControl (toMemory : Bool) (select : UInt8)
  | moveMultiple (toMemory : Bool) (mode : UInt8) (list : UInt8)
  deriving DecidableEq, Repr

namespace Command

/-- The class of a command word, in its top three bits. -/
def classField (word : UInt16) : UInt8 := byteField word 13 3

/-- The fields of a command word; the class 001 does not exist. -/
def decode (word : UInt16) : Option Command :=
  match octalField word 13 with
  | 0 =>
    some (.arithmetic (.register (octalField word 10)) (octalField word 7) (byteField word 0 7))
  | 1 => none
  | 2 =>
    some (.arithmetic (.memory (Format.decode (octalField word 10))) (octalField word 7)
      (byteField word 0 7))
  | 3 => some (.moveToMemory (Format.decode (octalField word 10)) (octalField word 7))
  | 4 => some (.moveControl false (byteField word 10 3))
  | 5 => some (.moveControl true (byteField word 10 3))
  | 6 => some (.moveMultiple false (byteField word 11 2) (byteField word 0 8))
  | 7 => some (.moveMultiple true (byteField word 11 2) (byteField word 0 8))

end Command

end M68Fpu
