import M68Fpu.Encoding.Field

/-!
# Opcode words

The first word of an instruction selects the FPU in its high byte and an operation in bits 6 and 7.
The low six bits hold an effective address or a condition.
-/

namespace M68Fpu

/-- What the high byte of an opcode selects. -/
inductive OpcodeGroup where
  /-- `F200` to `F2FF`: commands and conditional branches. -/
  | general
  /-- `F300` to `F3FF`: saving and restoring of the internal state. -/
  | stateFrame
  /-- Any other opcode: no instruction of the FPU. -/
  | unassigned
  deriving DecidableEq, Repr

def OpcodeGroup.decode (opcode : UInt16) : OpcodeGroup :=
  match bitField opcode 8 8 with
  | 0xF2 => general
  | 0xF3 => stateFrame
  | _ => unassigned

/-- The operation of an opcode of the general group. -/
inductive GeneralOp where
  | command
  /-- A conditional branch with a 16-bit displacement. -/
  | branchWord
  /-- A conditional branch with a 32-bit displacement. -/
  | branchLong
  deriving DecidableEq, Repr

/-- The operation in bits 6 and 7 of an opcode of the general group. -/
def GeneralOp.decode (opcode : UInt16) : Option GeneralOp :=
  match bitField opcode 6 2 with
  | 0 => some command
  | 2 => some branchWord
  | 3 => some branchLong
  | _ => none

/-- The operation of an opcode of the state frame group. -/
inductive StateFrameOp where
  | save
  | restore
  deriving DecidableEq, Repr

/-- The operation in bits 6 and 7 of an opcode of the state frame group. -/
def StateFrameOp.decode (opcode : UInt16) : Option StateFrameOp :=
  match bitField opcode 6 2 with
  | 0 => some save
  | 1 => some restore
  | _ => none

/-- Bits 6 and 7 of an opcode. -/
def operationField (opcode : UInt16) : UInt8 := byteField opcode 6 2

/-- The low six bits of an opcode: an effective address or a condition. -/
def addressField (opcode : UInt16) : UInt8 := byteField opcode 0 6

end M68Fpu
