import M68Fpu.Encoding.Command
import M68Fpu.Encoding.EffectiveAddress
import M68Fpu.Hex

/-!
# Faults

What can end an instruction early: an access that the bus refuses, an opcode that belongs to no
instruction of the FPU, or an encoding that the FPU does not implement.
-/

namespace M68Fpu

/-- The ways in which an encoding can lie outside of what the FPU implements. -/
inductive DecodeError where
  /-- An operand location that the access may not use. -/
  | addressingMode (access : Access) (mode register : UInt8)
  /-- An index extension word in the full format. -/
  | indexFormat (extension : UInt16)
  /-- A data format that exists but cannot be loaded or stored. -/
  | unimplementedFormat (format : Format) (direction : Direction)
  /-- A source code that names no data format. -/
  | invalidSource
  /-- A selector that names no control register or several. -/
  | unknownControlRegister (select : UInt8) (toMemory : Bool)
  /-- A register list that is not static, or not in the order of its direction. -/
  | multipleMode (mode : UInt8)
  /-- A condition field without a predicate. -/
  | unknownCondition (code : UInt8)
  /-- An arithmetic code without an operation. -/
  | unknownOpmode (code : UInt8)
  /-- A class of command words that does not exist. -/
  | unknownClass (code : UInt8)
  /-- An opcode of the general group without an operation. -/
  | unknownOperation (code : UInt8)
  /-- An opcode of the state frame group without an operation. -/
  | unknownFrameOperation (code : UInt8)
  deriving DecidableEq, Repr

/-- A cause in words, without the place. -/
def DecodeError.text : DecodeError → String
  | addressingMode access mode register =>
    access.text ++ ": unhandled mode " ++ toString mode.toNat ++ ", reg " ++ toString register.toNat
  | indexFormat extension =>
    "full format index extension word " ++ Hex.upper 4 extension.toNat ++ " unimplemented"
  | unimplementedFormat format direction =>
    format.text ++ " " ++ direction.text ++ " unimplemented"
  | invalidSource => "invalid source specifier"
  | unknownControlRegister select toMemory =>
    "unknown control register " ++ toString select.toNat ++ ", to memory "
      ++ (if toMemory then "true" else "false")
  | multipleMode mode => "FMOVEM: mode " ++ toString mode.toNat ++ " unimplemented"
  | unknownCondition code => "unhandled condition " ++ Hex.upper 2 code.toNat
  | unknownOpmode code => "unimplemented opmode " ++ Hex.upper 2 code.toNat
  | unknownClass code => "unimplemented subop " ++ toString code.toNat
  | unknownOperation code => "unimplemented main op " ++ toString code.toNat
  | unknownFrameOperation code => "unimplemented state frame op " ++ toString code.toNat

/-- The end of an instruction that did not complete. -/
inductive Fault where
  /-- The bus refused an access. -/
  | busError
  /-- The opcode is no instruction of the FPU. -/
  | illegalInstruction (opcode : UInt16)
  /-- The instruction at `address` is not implemented. -/
  | decode (cause : DecodeError) (address : UInt32)
  deriving DecidableEq, Repr

namespace Fault

/-- A fault in words; an encoding that is not implemented is followed by its address. -/
def message : Fault → String
  | busError => "bus error"
  | illegalInstruction opcode => "illegal instruction " ++ Hex.lower 4 opcode.toNat
  | decode cause address => cause.text ++ " at " ++ Hex.upper 8 address.toNat

end Fault

end M68Fpu
