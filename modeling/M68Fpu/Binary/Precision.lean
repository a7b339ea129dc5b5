/-!
# Precisions of binary floating point

A binary interchange format is fixed by the width of its fraction and of its exponent field. This
module holds what the formats share: how the magnitude bits of a pattern (all bits but the sign)
name a number, and how an exact quotient is rounded to magnitude bits.

Numbers are counted in *units*, the least positive value of the format, so every finite magnitude
is a natural number and no exponent is carried around.
-/

namespace M68Fpu

/-- A binary interchange format. -/
structure Precision where
  /-- Width of the stored fraction. -/
  fractionBits : Nat
  /-- Width of the exponent field. -/
  exponentBits : Nat
  deriving DecidableEq, Repr

namespace Precision

def single : Precision := ⟨23, 8⟩

def double : Precision := ⟨52, 11⟩

/-- The weight of the sign bit, which is also the number of magnitudes. -/
def signWeight (p : Precision) : Nat := 1 <<< (p.fractionBits + p.exponentBits)

/-- The magnitude of infinity: the exponent field all ones, the fraction zero. -/
def infinity (p : Precision) : Nat := ((1 <<< p.exponentBits) - 1) <<< p.fractionBits

/-- The fraction bit that tells a quiet NaN from a signalling one. -/
def quietBit (p : Precision) : Nat := 1 <<< (p.fractionBits - 1)

/-- One unit is two to the power of minus this number. -/
def scale (p : Precision) : Nat := (1 <<< (p.exponentBits - 1)) - 2 + p.fractionBits

/-- One, in units. -/
def unitsPerOne (p : Precision) : Nat := 1 <<< p.scale

/-! ## From magnitude bits to units -/

/-- The units of a finite magnitude. A zero exponent field has no hidden bit and the weight of an
exponent field of one. -/
def units (p : Precision) (magnitude : Nat) : Nat :=
  let exponent := magnitude >>> p.fractionBits
  let fraction := magnitude % (1 <<< p.fractionBits)
  if exponent = 0 then fraction else ((1 <<< p.fractionBits) + fraction) <<< (exponent - 1)

/-! ## From an exact quotient to magnitude bits -/

/-- The integer nearest to `numerator / denominator`, the even one of two that are equally near. -/
def roundQuotient (numerator denominator : Nat) : Nat :=
  let quotient := numerator / denominator
  let rest := numerator % denominator
  if denominator < 2 * rest ∨ (denominator = 2 * rest ∧ quotient % 2 = 1) then
    quotient + 1
  else
    quotient

/-- The magnitude nearest to `numerator / denominator` units, the even one of two that are equally
near, and infinity from half a step above the largest finite magnitude on.

A number of `drop` bits too many for the significand is rounded to a multiple of `2 ^ drop`. Adding
`drop` to the exponent field in front of a significand that still has its hidden bit gives the
right bits for subnormal, normal and just carried significands alike. -/
def round (p : Precision) (numerator denominator : Nat) : Nat :=
  let drop := (numerator / denominator).log2 - p.fractionBits
  min ((drop <<< p.fractionBits) + roundQuotient numerator (denominator <<< drop)) p.infinity

end Precision

end M68Fpu
