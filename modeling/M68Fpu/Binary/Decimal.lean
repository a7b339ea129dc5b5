import M68Fpu.Binary.Double

/-!
# Shortest decimal text of a double

Of all decimals that round to a given double, the text shows one on the coarsest grid of powers of
ten, and of those the nearest to the double. It is written positionally whatever the exponent.
-/

namespace M68Fpu

/-- The number `digits * 10 ^ exponent`. -/
structure Decimal where
  digits : Nat
  exponent : Int
  deriving DecidableEq, Repr

namespace Decimal

/-- The power of ten by which a grid point's digits are multiplied, as a numerator. -/
def raise (exponent : Int) : Nat := Nat.pow 10 exponent.toNat

/-- The power of ten by which a grid point's digits are divided, as a denominator. -/
def lower (exponent : Int) : Nat := Nat.pow 10 (-exponent).toNat

/-- Decimal digits, with a point before the last `-exponent` of them and none for a whole number. -/
def text (d : Decimal) : String :=
  if 0 ≤ d.exponent then
    toString (d.digits * raise d.exponent)
  else
    let places := (-d.exponent).toNat
    let fraction := toString (d.digits % lower d.exponent)
    toString (d.digits / lower d.exponent) ++ "."
      ++ String.ofList (List.replicate (places - fraction.length) '0') ++ fraction

end Decimal

namespace Double

/-! ## The interval that rounds to a magnitude

Midpoints between neighbouring magnitudes are whole numbers of half units. -/

/-- The midpoint between a positive magnitude and the one below, in half units. -/
def lowerMidpoint (magnitude : Nat) : Nat :=
  Precision.double.units (magnitude - 1) + Precision.double.units magnitude

/-- The midpoint between a finite magnitude and the one above, in half units. The magnitude above
the largest finite one counts as the next power of two. -/
def upperMidpoint (magnitude : Nat) : Nat :=
  Precision.double.units magnitude + Precision.double.units (magnitude + 1)

/-- The half units in one. -/
def halfUnitsPerOne : Nat := 2 * Precision.double.unitsPerOne

/-- Whether a decimal rounds to a positive finite magnitude. A midpoint rounds to the even of its
two neighbours. -/
def roundsTo (magnitude : Nat) (d : Decimal) : Bool :=
  let point := d.digits * Decimal.raise d.exponent * halfUnitsPerOne
  let low := lowerMidpoint magnitude * Decimal.lower d.exponent
  let high := upperMidpoint magnitude * Decimal.lower d.exponent
  if magnitude % 2 = 0 then decide (low ≤ point ∧ point ≤ high)
  else decide (low < point ∧ point < high)

/-! ## Neighbours on a decimal grid -/

/-- The nearest point at or below a magnitude on the grid of multiples of `10 ^ exponent`. -/
def gridBelow (magnitude : Nat) (exponent : Int) : Decimal :=
  let value := 2 * Precision.double.units magnitude * Decimal.lower exponent
  ⟨value / (Decimal.raise exponent * halfUnitsPerOne), exponent⟩

/-- The next grid point. -/
def gridAbove (magnitude : Nat) (exponent : Int) : Decimal :=
  ⟨(gridBelow magnitude exponent).digits + 1, exponent⟩

/-- The nearer of the two grid points around a magnitude, the upper one if they are equally near. -/
def gridNearest (magnitude : Nat) (exponent : Int) : Decimal :=
  let value := 2 * Precision.double.units magnitude * Decimal.lower exponent
  let step := Decimal.raise exponent * halfUnitsPerOne
  if step ≤ 2 * (value % step) then gridAbove magnitude exponent else gridBelow magnitude exponent

/-- The nearest grid point that rounds to the magnitude, if one does. A point of the grid rounds to
it only if one of the two around it does. -/
def gridPoint? (magnitude : Nat) (exponent : Int) : Option Decimal :=
  let below := gridBelow magnitude exponent
  let above := gridAbove magnitude exponent
  match roundsTo magnitude below, roundsTo magnitude above with
  | true, true => some (gridNearest magnitude exponent)
  | true, false => some below
  | false, true => some above
  | false, false => none

/-! ## The coarsest grid -/

/-- The exponent of the finest grid needed: a unit is more than two of its steps. -/
def finestExponent : Int := -324

/-- How much coarser a grid can be and still have a point near the largest double. -/
def coarsestStep : Nat := 632

/-- The point found on the coarsest of the grids that are at most `steps` coarser than the finest. -/
def shortestWithin (magnitude : Nat) : (steps : Nat) → Decimal
  | 0 => gridNearest magnitude finestExponent
  | steps + 1 =>
    match gridPoint? magnitude (finestExponent + (steps + 1 : Nat)) with
    | some d => d
    | none => shortestWithin magnitude steps

/-- The shortest decimal of a positive finite magnitude. -/
def shortest (magnitude : Nat) : Decimal := shortestWithin magnitude coarsestStep

/-- A double as text: no exponent, no point in a whole number, a sign on negative zero too and none
on a NaN. -/
def text (x : Double) : String :=
  let sign := if x.isNegative then "-" else ""
  match x.datum with
  | .finite _ units => if units = 0 then sign ++ "0" else sign ++ (shortest x.magnitude).text
  | .infinite _ => sign ++ "inf"
  | .nan => "NaN"

end Double

end M68Fpu
