import M68Fpu.Binary.Double

/-!
# Single-precision numbers

The FPU computes in double precision alone; single precision is a format of operands in memory. This
module holds the pattern and the two conversions. Widening is exact, narrowing rounds once.

A NaN keeps its sign and as much of its payload as the narrower fraction holds, and comes out quiet
in both directions.
-/

namespace M68Fpu

/-- A single-precision number, as its interchange pattern. -/
structure Single where
  bits : UInt32
  deriving DecidableEq, Repr, Inhabited

namespace Single

def isNegative (x : Single) : Bool := decide (Precision.single.signWeight ≤ x.bits.toNat)

def magnitude (x : Single) : Nat := x.bits.toNat % Precision.single.signWeight

def ofParts (negative : Bool) (magnitude : Nat) : Single :=
  ⟨UInt32.ofNat ((if negative then Precision.single.signWeight else 0) + magnitude)⟩

/-- A pattern whose exponent field is all ones, with its quiet bit set. -/
def quiet (x : Single) : Single :=
  if x.magnitude / Precision.single.quietBit % 2 = 1 then x
  else ofParts x.isNegative (x.magnitude + Precision.single.quietBit)

end Single

/-! ## Conversions -/

namespace Precision

/-- How many single-precision fraction bits a double-precision fraction has to spare. -/
def spareFractionBits : Nat := double.fractionBits - single.fractionBits

/-- The double-precision units in one single-precision unit. -/
def doubleUnitsPerSingleUnit : Nat := 1 <<< (double.scale - single.scale)

end Precision

/-- The double that stands for the same number. -/
def Single.widen (x : Single) : Double :=
  if x.magnitude < Precision.single.infinity then
    Double.ofQuotient x.isNegative
      (Precision.single.units x.magnitude * Precision.doubleUnitsPerSingleUnit) 1
  else if x.magnitude = Precision.single.infinity then
    Double.infinity x.isNegative
  else
    let payload := x.magnitude - Precision.single.infinity
    (Double.ofParts x.isNegative
      (Precision.double.infinity + (payload <<< Precision.spareFractionBits))).quiet

/-- The single nearest to a double. -/
def Double.narrow (x : Double) : Single :=
  match x.datum with
  | .finite negative units =>
    Single.ofParts negative (Precision.single.round units Precision.doubleUnitsPerSingleUnit)
  | .infinite negative => Single.ofParts negative Precision.single.infinity
  | .nan =>
    let payload := x.magnitude - Precision.double.infinity
    (Single.ofParts x.isNegative
      (Precision.single.infinity + (payload >>> Precision.spareFractionBits))).quiet

end M68Fpu
