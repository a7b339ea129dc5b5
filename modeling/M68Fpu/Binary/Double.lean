import M68Fpu.Binary.Precision

/-!
# Double-precision numbers

A 64-bit pattern and the arithmetic on it. Every operation computes its exact result in units and
rounds once, to nearest with ties to even, so the result of an operation is a function of the
operands' bits alone.

NaN operands pass through: the result is the first operand that is a NaN, made quiet, with its sign
and payload kept. An operation that has no numeric answer on numbers gives `invalid`.
-/

namespace M68Fpu

/-- A double-precision number, as its interchange pattern. -/
structure Double where
  bits : UInt64
  deriving DecidableEq, Repr, Inhabited

namespace Double

/-! ## Fields of a pattern -/

def isNegative (x : Double) : Bool := decide (Precision.double.signWeight ≤ x.bits.toNat)

/-- All bits but the sign. -/
def magnitude (x : Double) : Nat := x.bits.toNat % Precision.double.signWeight

/-- The pattern with a given sign and magnitude. -/
def ofParts (negative : Bool) (magnitude : Nat) : Double :=
  ⟨UInt64.ofNat ((if negative then Precision.double.signWeight else 0) + magnitude)⟩

def zero (negative : Bool) : Double := ofParts negative 0

def infinity (negative : Bool) : Double := ofParts negative Precision.double.infinity

/-- The answer of an operation on numbers that has no numeric answer: the quiet NaN with the sign
set and no payload. -/
def invalid : Double := ofParts true (Precision.double.infinity + Precision.double.quietBit)

def isNaN (x : Double) : Bool := decide (Precision.double.infinity < x.magnitude)

/-! ## What a pattern stands for -/

/-- The number a pattern stands for, in units. -/
inductive Datum where
  | finite (negative : Bool) (units : Nat)
  | infinite (negative : Bool)
  | nan
  deriving DecidableEq, Repr

/-- The number that `x` stands for. -/
def datum (x : Double) : Datum :=
  if x.magnitude < Precision.double.infinity then
    .finite x.isNegative (Precision.double.units x.magnitude)
  else if x.magnitude = Precision.double.infinity then
    .infinite x.isNegative
  else
    .nan

/-- The double nearest to plus or minus `numerator / denominator` units. -/
def ofQuotient (negative : Bool) (numerator denominator : Nat) : Double :=
  ofParts negative (Precision.double.round numerator denominator)

/-- A whole number of units with its sign, for addition. -/
def signedUnits (negative : Bool) (units : Nat) : Int :=
  if negative then -(units : Int) else units

/-! ## Operations on the sign bit

They never look at the other bits, so a signalling NaN stays signalling. -/

def neg (x : Double) : Double := ofParts (!x.isNegative) x.magnitude

/-- The same magnitude with the sign cleared. -/
def abs (x : Double) : Double := ofParts false x.magnitude

/-! ## Arithmetic -/

/-- A NaN with its quiet bit set, sign and payload kept. -/
def quiet (x : Double) : Double :=
  if x.magnitude / Precision.double.quietBit % 2 = 1 then x
  else ofParts x.isNegative (x.magnitude + Precision.double.quietBit)

/-- The sum of two finite numbers. A sum of zero is negative only if both operands are. -/
def sum (s : Bool) (u : Nat) (t : Bool) (v : Nat) : Double :=
  let total := signedUnits s u + signedUnits t v
  if total = 0 then zero (s && t) else ofQuotient (decide (total < 0)) total.natAbs 1

def add (x y : Double) : Double :=
  match x.datum, y.datum with
  | .nan, _ => x.quiet
  | _, .nan => y.quiet
  | .finite s u, .finite t v => sum s u t v
  | .finite _ _, .infinite t => infinity t
  | .infinite s, .finite _ _ => infinity s
  | .infinite s, .infinite t => if s = t then infinity s else invalid

/-- `x - y`, which is `x + (-y)`; a NaN on the right keeps its sign. -/
def sub (x y : Double) : Double := x.add (if y.isNaN then y else y.neg)

def mul (x y : Double) : Double :=
  match x.datum, y.datum with
  | .nan, _ => x.quiet
  | _, .nan => y.quiet
  | .finite s u, .finite t v => ofQuotient (s != t) (u * v) Precision.double.unitsPerOne
  | .finite s u, .infinite t => if u = 0 then invalid else infinity (s != t)
  | .infinite s, .finite t v => if v = 0 then invalid else infinity (s != t)
  | .infinite s, .infinite t => infinity (s != t)

def div (x y : Double) : Double :=
  match x.datum, y.datum with
  | .nan, _ => x.quiet
  | _, .nan => y.quiet
  | .finite s u, .finite t v =>
    if v = 0 then
      if u = 0 then invalid else infinity (s != t)
    else
      ofQuotient (s != t) (u * Precision.double.unitsPerOne) v
  | .finite s _, .infinite t => zero (s != t)
  | .infinite s, .finite t _ => infinity (s != t)
  | .infinite _, .infinite _ => invalid

/-- The square root of a positive number of units.

The root of any double is normal, so its integer part in units has more bits than a significand; one
more bit, set exactly if the integer part is not the whole root, is enough to round correctly. -/
def sqrtUnits (units : Nat) : Double :=
  let square := units * Precision.double.unitsPerOne
  let root := square.sqrt
  let inexact := if root * root = square then 0 else 1
  ofQuotient false (2 * root + inexact) 2

/-- The square root of `x`; a zero keeps its sign. -/
def sqrt (x : Double) : Double :=
  match x.datum with
  | .nan => x.quiet
  | .infinite negative => if negative then invalid else x
  | .finite negative units =>
    if units = 0 then x else if negative then invalid else sqrtUnits units

end Double

end M68Fpu
