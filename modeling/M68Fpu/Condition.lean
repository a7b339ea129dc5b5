import M68Fpu.Binary.Double

/-!
# Condition codes and predicates

Bits 24 to 27 of the status register describe the last result that was reported; the conditional
branches test them. Both directions are here: the codes that describe a double, and the predicates
of the condition field.
-/

namespace M68Fpu

/-! ## Condition codes -/

/-- The condition code bits of the status register. -/
inductive StatusFlag where
  | nan
  | infinity
  | zero
  | negative
  deriving DecidableEq, Repr

namespace StatusFlag

def mask : StatusFlag → UInt32
  | nan => 0x01000000
  | infinity => 0x02000000
  | zero => 0x04000000
  | negative => 0x08000000

/-- The bit of a flag that is set, and nothing for one that is clear. -/
def maskIf (flag : StatusFlag) (set : Bool) : UInt32 := if set then flag.mask else 0

def isSet (flag : StatusFlag) (status : UInt32) : Bool := status &&& flag.mask != 0

end StatusFlag

/-- All four condition code bits. -/
def conditionMask : UInt32 :=
  StatusFlag.nan.mask ||| StatusFlag.infinity.mask ||| StatusFlag.zero.mask
    ||| StatusFlag.negative.mask

/-- The condition codes that describe a double. The negative flag is the sign bit, on zeros and NaNs
too. -/
def Double.conditionCodes (x : Double) : UInt32 :=
  StatusFlag.negative.maskIf x.isNegative
    ||| StatusFlag.zero.maskIf (x.magnitude == 0)
    ||| StatusFlag.infinity.maskIf (x.magnitude == Precision.double.infinity)
    ||| StatusFlag.nan.maskIf x.isNaN

/-- A status word with its condition codes replaced by those that describe `x`. -/
def withConditionCodes (status : UInt32) (x : Double) : UInt32 :=
  (status &&& ~~~conditionMask) ||| x.conditionCodes

/-! ## Predicates -/

/-- The predicates of the conditional branches. The negated orderings hold of unordered operands. -/
inductive Condition where
  | never
  | equal
  | notEqual
  | always
  | greater
  | greaterOrEqual
  | less
  | lessOrEqual
  | notLessOrEqual
  | notLess
  | notGreaterOrEqual
  | notGreater
  deriving DecidableEq, Repr

namespace Condition

/-- The predicate of a condition field, if it has one. -/
def decode : (code : UInt8) → Option Condition
  | 0x00 => some never
  | 0x01 => some equal
  | 0x0E => some notEqual
  | 0x0F => some always
  | 0x12 => some greater
  | 0x13 => some greaterOrEqual
  | 0x14 => some less
  | 0x15 => some lessOrEqual
  | 0x1A => some notLessOrEqual
  | 0x1B => some notLess
  | 0x1C => some notGreaterOrEqual
  | 0x1D => some notGreater
  | _ => none

/-- Whether a predicate holds of a status word. -/
def holds (condition : Condition) (status : UInt32) : Bool :=
  let negative := StatusFlag.negative.isSet status
  let zero := StatusFlag.zero.isSet status
  let nan := StatusFlag.nan.isSet status
  match condition with
  | never => false
  | equal => zero
  | notEqual => !zero
  | always => true
  | greater => !(nan || zero || negative)
  | greaterOrEqual => zero || !(nan || negative)
  | less => negative && !(nan || zero)
  | lessOrEqual => zero || (negative && !nan)
  | notLessOrEqual => nan || !(negative || zero)
  | notLess => nan || zero || !negative
  | notGreaterOrEqual => nan || (negative && !zero)
  | notGreater => nan || zero || negative

end Condition

end M68Fpu
