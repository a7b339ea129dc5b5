import M68Fpu.Binary.Double
import Mathlib.Algebra.Order.Field.Power
import Mathlib.Algebra.Order.Ring.Rat
import Mathlib.Order.WithBot

/-!
# The exact value of a double

The number that a pattern stands for, read off the three fields of the interchange format: an
extended rational number, or none for a NaN. The units that the arithmetic counts in are the same
numbers scaled by one constant (`value_eq_of_datum`), so the order of values is that of signed whole
numbers of units.
-/

namespace M68Fpu

/-- The rational numbers with both infinities. -/
abbrev ExtendedRat := WithBot (WithTop ℚ)

namespace ExtendedRat

/-- A rational number as one of the extended line. -/
def ofRat (q : ℚ) : ExtendedRat := ((q : WithTop ℚ) : WithBot (WithTop ℚ))

theorem ofRat_lt_iff {p q : ℚ} : ofRat p < ofRat q ↔ p < q := by
  unfold ofRat
  rw [WithBot.coe_lt_coe, WithTop.coe_lt_coe]

theorem ofRat_ne_bot (q : ℚ) : ofRat q ≠ ⊥ := WithBot.coe_ne_bot

theorem ofRat_ne_top (q : ℚ) : ofRat q ≠ ⊤ := by
  unfold ofRat
  rw [← WithBot.coe_top, Ne, WithBot.coe_inj]
  exact WithTop.coe_ne_top

end ExtendedRat

namespace Double

/-! ## Fields -/

/-- The exponent field of a pattern. -/
def exponentField (x : Double) : Nat := x.bits.toNat / 0x10000000000000 % 0x800

def fractionField (x : Double) : Nat := x.bits.toNat % 0x10000000000000

/-- Plus or minus one, after the sign bit of a pattern. -/
def signFactor (x : Double) : ℚ := if 0x8000000000000000 ≤ x.bits.toNat then -1 else 1

/-- The number that a pattern stands for. -/
def value (x : Double) : Option ExtendedRat :=
  if x.exponentField = 0x7FF then
    if x.fractionField ≠ 0 then none
    else if 0x8000000000000000 ≤ x.bits.toNat then some ⊥
    else some ⊤
  else if x.exponentField = 0 then
    some (.ofRat (x.signFactor * x.fractionField * 2 ^ (-1074 : ℤ)))
  else
    some (.ofRat (x.signFactor * (0x10000000000000 + x.fractionField)
      * 2 ^ ((x.exponentField : ℤ) - 1075)))

/-! ## Constants of the format -/

@[simp] theorem signWeight_double : Precision.double.signWeight = 0x8000000000000000 := by decide

@[simp] theorem infinity_double : Precision.double.infinity = 0x7FF0000000000000 := by decide

@[simp] theorem quietBit_double : Precision.double.quietBit = 0x8000000000000 := by decide

@[simp] theorem fractionBits_double : Precision.double.fractionBits = 52 := rfl

/-! ## Values in units -/

/-- The value of one unit. -/
def unit : ℚ := 2 ^ (-1074 : ℤ)

theorem unit_pos : 0 < unit := zpow_pos (by norm_num) _

/-- A signed whole number of units. -/
def ofUnits (negative : Bool) (units : Nat) : ℚ := signedUnits negative units * unit

theorem magnitude_eq (x : Double) :
    x.magnitude = x.exponentField * 0x10000000000000 + x.fractionField := by
  have hbits := x.bits.toNat_lt
  simp only [magnitude, signWeight_double, exponentField, fractionField]
  omega

theorem fractionField_lt (x : Double) : x.fractionField < 0x10000000000000 :=
  Nat.mod_lt _ (by decide)

theorem exponentField_lt (x : Double) : x.exponentField < 0x800 :=
  Nat.mod_lt _ (by decide)

theorem isNegative_eq (x : Double) :
    x.isNegative = decide (0x8000000000000000 ≤ x.bits.toNat) := by
  rw [isNegative, signWeight_double]

theorem units_magnitude (x : Double) :
    Precision.double.units x.magnitude =
      if x.exponentField = 0 then x.fractionField
      else (0x10000000000000 + x.fractionField) * 2 ^ (x.exponentField - 1) := by
  have hfraction := x.fractionField_lt
  have hexponent : x.magnitude >>> 52 = x.exponentField := by
    rw [Nat.shiftRight_eq_div_pow, magnitude_eq]
    omega
  have hone : 1 <<< 52 = 0x10000000000000 := by decide
  have hrest : x.magnitude % 0x10000000000000 = x.fractionField := by
    rw [magnitude_eq]
    omega
  unfold Precision.units
  rw [fractionBits_double]
  simp only [hone, hexponent, hrest, Nat.shiftLeft_eq]

theorem ofUnits_eq (x : Double) (units : Nat) :
    ofUnits x.isNegative units = x.signFactor * units * unit := by
  unfold ofUnits signedUnits signFactor
  rw [isNegative_eq]
  by_cases h : 0x8000000000000000 ≤ x.bits.toNat <;> simp [h]

/-- The weight of an exponent field, in units and as a number. -/
theorem two_pow_mul_unit {exponent : Nat} (h : exponent ≠ 0) :
    ((2 ^ (exponent - 1) : Nat) : ℚ) * unit = 2 ^ ((exponent : ℤ) - 1075) := by
  have hexponent : ((exponent - 1 : Nat) : ℤ) + -1074 = (exponent : ℤ) - 1075 := by omega
  rw [unit, Nat.cast_pow, Nat.cast_ofNat, ← zpow_natCast, ← zpow_add₀ (by norm_num), hexponent]

/-- The value of a pattern and the number of units that the arithmetic takes it for. -/
theorem value_eq_of_datum (x : Double) :
    x.value = match x.datum with
      | .nan => none
      | .infinite negative => some (if negative then ⊥ else ⊤)
      | .finite negative units => some (.ofRat (ofUnits negative units)) := by
  have hfraction := x.fractionField_lt
  have hexponent := x.exponentField_lt
  have hmagnitude := x.magnitude_eq
  have hunits := x.units_magnitude
  unfold value datum
  rw [infinity_double]
  by_cases hlast : x.exponentField = 0x7FF
  -- The exponent field of infinities and NaNs, which the fraction tells apart.
  · have hnotFinite : ¬ x.magnitude < 0x7FF0000000000000 := by omega
    rw [if_pos hlast, if_neg hnotFinite]
    by_cases hzero : x.fractionField = 0
    · have hinfinite : x.magnitude = 0x7FF0000000000000 := by omega
      rw [if_neg (not_not.mpr hzero), if_pos hinfinite, isNegative_eq]
      by_cases hsign : 0x8000000000000000 ≤ x.bits.toNat <;> simp [hsign]
    · have hnan : x.magnitude ≠ 0x7FF0000000000000 := by omega
      rw [if_pos hzero, if_neg hnan]
  · have hfinite : x.magnitude < 0x7FF0000000000000 := by omega
    rw [if_neg hlast, if_pos hfinite]
    by_cases hsubnormal : x.exponentField = 0
    -- Subnormal numbers are counted in units as they are; normal ones are shifted.
    · rw [if_pos hsubnormal] at hunits ⊢
      simp only [hunits, ofUnits_eq]
      rfl
    · rw [if_neg hsubnormal] at hunits ⊢
      simp only [hunits, ofUnits_eq]
      rw [← two_pow_mul_unit hsubnormal]
      push_cast
      simp only [mul_assoc]

theorem datum_eq_nan_iff (x : Double) : x.datum = .nan ↔ x.isNaN = true := by
  unfold datum isNaN
  rw [decide_eq_true_eq, infinity_double]
  split
  · simp only [reduceCtorEq, false_iff]
    omega
  · split
    · simp only [reduceCtorEq, false_iff]
      omega
    · simp only [true_iff]
      omega

/-- Patterns without a value are the NaNs. -/
theorem value_eq_none_iff (x : Double) : x.value = none ↔ x.isNaN = true := by
  rw [value_eq_of_datum, ← datum_eq_nan_iff]
  cases x.datum <;> simp

/-! ## Order -/

theorem ofUnits_lt_iff {s t : Bool} {u v : Nat} :
    ofUnits s u < ofUnits t v ↔ signedUnits s u < signedUnits t v := by
  unfold ofUnits
  rw [mul_lt_mul_iff_of_pos_right unit_pos, Int.cast_lt]

/-- Whether two patterns stand for the same number. -/
def Equals (x y : Double) : Prop := ∃ a, x.value = some a ∧ y.value = some a

/-- Whether a pattern stands for a smaller number than another. -/
def Less (x y : Double) : Prop := ∃ a b, x.value = some a ∧ y.value = some b ∧ a < b

/-- Whether two patterns are infinities of the same sign. -/
def SameInfinity (x y : Double) : Prop :=
  (x.value = some ⊥ ∧ y.value = some ⊥) ∨ (x.value = some ⊤ ∧ y.value = some ⊤)

end Double

end M68Fpu
