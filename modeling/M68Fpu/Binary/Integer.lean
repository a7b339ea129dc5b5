import M68Fpu.Binary.Double

/-!
# Conversions between integers and doubles

Integers become the nearest double, which for 32 bits and fewer is the integer itself. Doubles
become 32-bit integers by dropping the fraction and clamping to the range.
-/

namespace M68Fpu

namespace Double

/-- The double nearest to plus or minus `numerator / denominator`. -/
def ofRatio (negative : Bool) (numerator denominator : Nat) : Double :=
  ofQuotient negative (numerator * Precision.double.unitsPerOne) denominator

/-- The double nearest to an integer; zero is positive. -/
def ofInt (value : Int) : Double := ofRatio (decide (value < 0)) value.natAbs 1

def minLong : Int := -0x80000000

def maxLong : Int := 0x7FFFFFFF

/-- The 32-bit integer nearest to `x` on the side of zero. Numbers out of range, infinities
included, give the end of the range on their side; a NaN gives zero. -/
def toLong (x : Double) : Int :=
  match x.datum with
  | .finite negative units =>
    max minLong (min maxLong (signedUnits negative (units / Precision.double.unitsPerOne)))
  | .infinite negative => if negative then minLong else maxLong
  | .nan => 0

end Double

end M68Fpu
