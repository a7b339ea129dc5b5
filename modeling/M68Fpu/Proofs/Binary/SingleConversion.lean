import M68Fpu.Binary.Single
import M68Fpu.Proofs.Binary.Difference
import M68Fpu.Proofs.Binary.Rounding

/-!
# Conversions between single and double precision

A single widens to the double of the same value (`Single.value_widen`), and narrowing takes that
double back (`Single.bits_narrow_widen`), because a number that a precision holds is rounded to
itself. All other doubles narrow to the nearest single (`Double.narrows_narrow`).

A NaN that is converted gets its quiet bit, which is all that making it quiet does to its bits
(`Single.bits_quiet`). So a narrowed double is no signalling NaN, and to widen and narrow it again
changes nothing (`Double.narrow_widen_narrow`).
-/

namespace M68Fpu

/-! ## Single bits -/

theorem or_two_pow_of_set {n k : Nat} (h : n / 2 ^ k % 2 = 1) : n ||| 2 ^ k = n := by
  have hset : n.testBit k = true := by
    rw [Nat.testBit_eq_decide_div_mod_eq, decide_eq_true_iff]
    exact h
  apply Nat.eq_of_testBit_eq
  intro i
  rw [Nat.testBit_or, Nat.testBit_two_pow]
  by_cases hi : k = i
  · rw [← hi, hset, Bool.true_or]
  · rw [decide_eq_false hi, Bool.or_false]

/-- A bit that is clear is set by adding it. -/
theorem or_two_pow_of_clear {n k : Nat} (h : n / 2 ^ k % 2 = 0) : n ||| 2 ^ k = n + 2 ^ k := by
  have hrest := Nat.mod_lt n (Nat.two_pow_pos k)
  have hdouble : 2 ^ k < 2 ^ (k + 1) := Nat.pow_lt_pow_right (by decide) (Nat.lt_succ_self k)
  obtain ⟨high, hhigh⟩ : ∃ high, n / 2 ^ k = 2 * high := ⟨n / 2 ^ k / 2, by omega⟩
  have hparts : 2 ^ (k + 1) * high + n % 2 ^ k = n := by
    rw [Nat.pow_succ, Nat.mul_assoc, ← hhigh, Nat.div_add_mod]
  -- Below the bit and above it nothing changes, so the three parts are combined in another order.
  calc
    n ||| 2 ^ k = (2 ^ (k + 1) * high ||| n % 2 ^ k) ||| 2 ^ k := by
      rw [← Nat.two_pow_add_eq_or_of_lt (hrest.trans hdouble), hparts]
    _ = (2 ^ (k + 1) * high ||| 2 ^ k) ||| n % 2 ^ k := by
      rw [Nat.or_assoc, Nat.or_comm (n % 2 ^ k), ← Nat.or_assoc]
    _ = 2 ^ k * (2 * high + 1) ||| n % 2 ^ k := by
      rw [← Nat.two_pow_add_eq_or_of_lt hdouble, Nat.pow_succ, Nat.mul_assoc, Nat.mul_add,
        Nat.mul_one]
    _ = 2 ^ (k + 1) * high + n % 2 ^ k + 2 ^ k := by
      rw [← Nat.two_pow_add_eq_or_of_lt hrest, Nat.mul_add, Nat.pow_succ, Nat.mul_assoc]
      omega
    _ = n + 2 ^ k := by rw [hparts]

namespace Single

/-! ## Fields -/

def exponentField (x : Single) : Nat := x.bits.toNat / 0x800000 % 0x100

def fractionField (x : Single) : Nat := x.bits.toNat % 0x800000

/-- Plus or minus one, after the sign bit of a pattern. -/
def signFactor (x : Single) : ℚ := if 0x80000000 ≤ x.bits.toNat then -1 else 1

/-- The number that a pattern stands for. -/
def value (x : Single) : Option ExtendedRat :=
  if x.exponentField = 0xFF then
    if x.fractionField ≠ 0 then none
    else if 0x80000000 ≤ x.bits.toNat then some ⊥
    else some ⊤
  else if x.exponentField = 0 then
    some (.ofRat (x.signFactor * x.fractionField * 2 ^ (-149 : ℤ)))
  else
    some (.ofRat (x.signFactor * (0x800000 + x.fractionField)
      * 2 ^ ((x.exponentField : ℤ) - 150)))

/-- Whether a pattern is a NaN whose quiet bit is clear. -/
def IsSignalling (x : Single) : Prop :=
  x.exponentField = 0xFF ∧ x.fractionField ≠ 0 ∧ x.fractionField < 0x400000

instance (x : Single) : Decidable x.IsSignalling := inferInstanceAs (Decidable (_ ∧ _ ∧ _))

/-! ## Constants of the format -/

@[simp] theorem signWeight_single : Precision.single.signWeight = 0x80000000 := by decide

@[simp] theorem infinity_single : Precision.single.infinity = 0x7F800000 := by decide

@[simp] theorem quietBit_single : Precision.single.quietBit = 0x400000 := by decide

/-! ## Patterns made of parts -/

theorem magnitude_eq (x : Single) : x.magnitude = x.exponentField * 0x800000 + x.fractionField := by
  have hbits := x.bits.toNat_lt
  simp only [magnitude, signWeight_single, exponentField, fractionField]
  omega

theorem fractionField_lt (x : Single) : x.fractionField < 0x800000 :=
  Nat.mod_lt _ (by decide)

theorem exponentField_lt (x : Single) : x.exponentField < 0x100 :=
  Nat.mod_lt _ (by decide)

theorem exponentField_eq (x : Single) : x.exponentField = x.magnitude / 0x800000 := by
  have hmagnitude := x.magnitude_eq
  have hfraction := x.fractionField_lt
  omega

theorem fractionField_eq (x : Single) : x.fractionField = x.magnitude % 0x800000 := by
  have hmagnitude := x.magnitude_eq
  have hfraction := x.fractionField_lt
  omega

theorem magnitude_lt (x : Single) : x.magnitude < Precision.single.signWeight :=
  Nat.mod_lt _ (by decide)

theorem isNegative_eq (x : Single) : x.isNegative = decide (0x80000000 ≤ x.bits.toNat) := by
  rw [isNegative, signWeight_single]

variable {magnitude : Nat}

theorem magnitude_ofParts (negative : Bool) (h : magnitude < Precision.single.signWeight) :
    (ofParts negative magnitude).magnitude = magnitude := by
  rw [signWeight_single] at h
  simp only [Single.magnitude, ofParts, signWeight_single, UInt32.toNat_ofNat']
  cases negative <;> simp <;> omega

theorem isNegative_ofParts (negative : Bool) (h : magnitude < Precision.single.signWeight) :
    (ofParts negative magnitude).isNegative = negative := by
  rw [signWeight_single] at h
  simp only [isNegative, ofParts, signWeight_single, UInt32.toNat_ofNat']
  cases negative <;> simp <;> omega

/-- The bits of a pattern, from its sign and its magnitude. -/
theorem toNat_bits (x : Single) :
    x.bits.toNat = (if x.isNegative then 0x80000000 else 0) + x.magnitude := by
  have hbits := x.bits.toNat_lt
  rw [isNegative_eq]
  simp only [Single.magnitude, signWeight_single, decide_eq_true_eq]
  split <;> omega

theorem ext_bits {x y : Single} (h : x.bits = y.bits) : x = y := by
  cases x
  cases y
  exact congrArg Single.mk h

theorem ext_parts {x y : Single} (hsign : x.isNegative = y.isNegative)
    (hmagnitude : x.magnitude = y.magnitude) : x = y := by
  apply ext_bits
  apply UInt32.toNat_inj.mp
  rw [toNat_bits, toNat_bits, hsign, hmagnitude]

@[simp] theorem ofParts_magnitude (x : Single) : ofParts x.isNegative x.magnitude = x :=
  ext_parts (isNegative_ofParts _ x.magnitude_lt) (magnitude_ofParts _ x.magnitude_lt)

/-! ## Quiet NaNs -/

/-- Making a pattern quiet sets its quiet bit. -/
theorem bits_quiet (x : Single) : x.quiet.bits = x.bits ||| 0x400000 := by
  have hmagnitude := x.magnitude_lt
  rw [signWeight_single] at hmagnitude
  have hbits := x.toNat_bits
  have hquietBit : (0x400000 : UInt32).toNat = 2 ^ 22 := rfl
  apply UInt32.toNat_inj.mp
  rw [UInt32.toNat_or, hquietBit]
  unfold quiet
  rw [quietBit_single]
  split
  · next hset => rw [or_two_pow_of_set (by split at hbits <;> omega)]
  · next hclear =>
    have hroom : x.magnitude + 0x400000 < Precision.single.signWeight := by
      rw [signWeight_single]
      omega
    rw [or_two_pow_of_clear (by split at hbits <;> omega), toNat_bits,
      isNegative_ofParts _ hroom, magnitude_ofParts _ hroom, hbits, Nat.add_assoc]
    rfl

theorem exponentField_quiet (x : Single) : x.quiet.exponentField = x.exponentField := by
  have hquietBit : (0x400000 : UInt32).toNat = 2 ^ 22 := rfl
  unfold exponentField
  rw [bits_quiet, UInt32.toNat_or, hquietBit]
  show (_ ||| 2 ^ 22) / 2 ^ 23 % 0x100 = _ / 2 ^ 23 % 0x100
  rw [Nat.or_div_two_pow, Nat.div_eq_of_lt (by decide : 2 ^ 22 < 2 ^ 23), Nat.or_zero]

theorem fractionField_quiet (x : Single) :
    x.quiet.fractionField = x.fractionField ||| 0x400000 := by
  have hquietBit : (0x400000 : UInt32).toNat = 2 ^ 22 := rfl
  unfold fractionField
  rw [bits_quiet, UInt32.toNat_or, hquietBit]
  show (_ ||| 2 ^ 22) % 2 ^ 23 = _ % 2 ^ 23 ||| 2 ^ 22
  rw [Nat.or_mod_two_pow, Nat.mod_eq_of_lt (by decide : 2 ^ 22 < 2 ^ 23)]

theorem isNegative_quiet (x : Single) : x.quiet.isNegative = x.isNegative := by
  have hmagnitude := x.magnitude_lt
  unfold quiet
  split
  · rfl
  · next hclear =>
    rw [signWeight_single] at hmagnitude
    rw [quietBit_single] at hclear ⊢
    refine isNegative_ofParts _ ?_
    rw [signWeight_single]
    omega

theorem quiet_eq_self {x : Single} (h : ¬ x.fractionField < 0x400000) : x.quiet = x := by
  have hmagnitude := x.magnitude_eq
  have hfraction := x.fractionField_lt
  unfold quiet
  rw [quietBit_single, if_pos (by omega)]

@[simp] theorem quiet_quiet (x : Single) : x.quiet.quiet = x.quiet := by
  apply ext_bits
  rw [bits_quiet, bits_quiet, UInt32.or_assoc, UInt32.or_self]

theorem infinity_lt_magnitude_iff (x : Single) :
    Precision.single.infinity < x.magnitude ↔ x.exponentField = 0xFF ∧ x.fractionField ≠ 0 := by
  have hmagnitude := x.magnitude_eq
  have hfraction := x.fractionField_lt
  have hexponent := x.exponentField_lt
  rw [infinity_single]
  omega

theorem not_isSignalling_quiet (x : Single) : ¬ x.quiet.IsSignalling := by
  rintro ⟨-, -, hclear⟩
  have hquietBit : (0x400000 : UInt32).toNat = 2 ^ 22 := rfl
  have hset : x.quiet.bits.toNat.testBit 22 = true := by
    rw [bits_quiet, UInt32.toNat_or, hquietBit, Nat.testBit_or, Nat.testBit_two_pow_self,
      Bool.or_true]
  rw [Nat.testBit_eq_decide_div_mod_eq, decide_eq_true_iff] at hset
  unfold fractionField at hclear
  omega

theorem not_isSignalling_of_le {x : Single} (h : x.magnitude ≤ Precision.single.infinity) :
    ¬ x.IsSignalling := by
  rintro ⟨hexponent, hfraction, -⟩
  exact Nat.not_lt.mpr h (x.infinity_lt_magnitude_iff.mpr ⟨hexponent, hfraction⟩)

/-! ## Values in units -/

theorem units_magnitude (x : Single) :
    Precision.single.units x.magnitude =
      if x.exponentField = 0 then x.fractionField
      else (0x800000 + x.fractionField) * 2 ^ (x.exponentField - 1) := by
  rw [magnitude_eq]
  exact Precision.units_fields x.fractionField_lt

theorem doubleUnitsPerSingleUnit_eq : Precision.doubleUnitsPerSingleUnit = 2 ^ 925 := by
  have hscales : Precision.double.scale - Precision.single.scale = 925 := by decide
  rw [Precision.doubleUnitsPerSingleUnit, Nat.one_shiftLeft]
  exact congrArg (2 ^ ·) hscales

theorem doubleUnitsPerSingleUnit_pos : 0 < Precision.doubleUnitsPerSingleUnit := by
  rw [doubleUnitsPerSingleUnit_eq]
  apply Nat.two_pow_pos

/-- A single-precision unit is `2 ^ -149`. -/
theorem mul_doubleUnitsPerSingleUnit (units : Nat) :
    ((units * Precision.doubleUnitsPerSingleUnit : Nat) : ℚ) * Double.unit
      = units * 2 ^ (-149 : ℤ) := by
  rw [doubleUnitsPerSingleUnit_eq, Double.unit, Nat.cast_mul, Nat.cast_pow, Nat.cast_ofNat,
    ← zpow_natCast, mul_assoc, ← zpow_add₀ (by norm_num)]
  rfl

theorem ofUnits_eq (x : Single) (units : Nat) :
    Double.ofUnits x.isNegative units = x.signFactor * (units * Double.unit) := by
  unfold Double.ofUnits Double.signedUnits signFactor
  rw [isNegative_eq]
  by_cases h : 0x80000000 ≤ x.bits.toNat <;> simp [h]

theorem value_of_lt_infinity {x : Single} (h : x.magnitude < Precision.single.infinity) :
    x.value = some (.ofRat (Double.ofUnits x.isNegative
      (Precision.single.units x.magnitude * Precision.doubleUnitsPerSingleUnit))) := by
  have hmagnitude := x.magnitude_eq
  have hfinite : x.exponentField ≠ 0xFF := by
    rw [infinity_single] at h
    omega
  rw [ofUnits_eq, mul_doubleUnitsPerSingleUnit, units_magnitude, value, if_neg hfinite]
  by_cases hsubnormal : x.exponentField = 0
  · rw [if_pos hsubnormal, if_pos hsubnormal, mul_assoc]
  · have hexponent : ((x.exponentField - 1 : Nat) : ℤ) + -149 = (x.exponentField : ℤ) - 150 := by
      omega
    rw [if_neg hsubnormal, if_neg hsubnormal, ← hexponent, zpow_add₀ (by norm_num), zpow_natCast]
    push_cast
    simp only [mul_assoc]

theorem value_of_infinity {x : Single} (h : x.magnitude = Precision.single.infinity) :
    x.value = some (if x.isNegative then ⊥ else ⊤) := by
  have hmagnitude := x.magnitude_eq
  have hfraction := x.fractionField_lt
  rw [infinity_single] at h
  have hlast : x.exponentField = 0xFF := by omega
  have hzero : ¬ x.fractionField ≠ 0 := by omega
  rw [value, if_pos hlast, if_neg hzero, isNegative_eq]
  by_cases hsign : 0x80000000 ≤ x.bits.toNat <;> simp [hsign]

theorem value_of_infinity_lt {x : Single} (h : Precision.single.infinity < x.magnitude) :
    x.value = none := by
  obtain ⟨hlast, hfraction⟩ := x.infinity_lt_magnitude_iff.mp h
  rw [value, if_pos hlast, if_pos hfraction]

end Single

/-! ## Exact results -/

namespace Double

theorem datum_ofParts {magnitude : Nat} (negative : Bool)
    (h : magnitude ≤ Precision.double.infinity) :
    (ofParts negative magnitude).datum =
      if magnitude < Precision.double.infinity then
        .finite negative (Precision.double.units magnitude)
      else .infinite negative := by
  have hlt : magnitude < Precision.double.signWeight := Nat.lt_of_le_of_lt h (by decide)
  unfold datum
  rw [magnitude_ofParts _ hlt, isNegative_ofParts _ hlt]
  split
  · rfl
  · next hfinite => rw [if_pos (Nat.le_antisymm h (Nat.le_of_not_lt hfinite))]

/-- A number of at most 53 significant bits is rounded to itself. The greatest power of two is
`2 ^ 2097` units, behind which there is no room for 53 bits. -/
theorem datum_ofQuotient_exact {significand weight : Nat} (negative : Bool)
    (hlt : significand < 2 ^ 53) (hweight : weight ≤ 2045) :
    (ofQuotient negative (significand * 2 ^ weight) 1).datum
      = .finite negative (significand * 2 ^ weight) := by
  have hroom : Precision.double.assemble weight (2 ^ 53) ≤ Precision.double.infinity := by
    rw [infinity_double, Precision.assemble, fractionBits_double]
    omega
  obtain ⟨magnitude, hfinite, hunits⟩ := Precision.exists_units_eq hlt hroom
  have hround := Precision.round_units hfinite.le Nat.one_pos
  rw [Nat.mul_one] at hround
  rw [ofQuotient, ← hunits, hround, datum_ofParts _ hfinite.le, if_pos hfinite]

end Double

/-! ## Widening -/

namespace Single

/-- Every single-precision number has few enough bits for a double. -/
theorem exists_units_mul_eq {x : Single} (h : x.magnitude < Precision.single.infinity) :
    ∃ significand weight, significand < 2 ^ 53 ∧ weight ≤ 2045 ∧
      Precision.single.units x.magnitude * Precision.doubleUnitsPerSingleUnit
        = significand * 2 ^ weight := by
  obtain ⟨drop, significand, hsignificand, hlt, hassemble⟩ :=
    Precision.single.exists_assemble x.magnitude
  have hbits : Precision.single.fractionBits = 23 := rfl
  rw [← hassemble, Precision.assemble, infinity_single, hbits] at h
  rw [hbits] at hlt
  refine ⟨significand, drop + 925, by omega, by omega, ?_⟩
  rw [← hassemble, Precision.units_assemble hsignificand, doubleUnitsPerSingleUnit_eq, Nat.mul_assoc,
    Nat.pow_add]

theorem datum_widen_of_lt {x : Single} (h : x.magnitude < Precision.single.infinity) :
    x.widen.datum = .finite x.isNegative
      (Precision.single.units x.magnitude * Precision.doubleUnitsPerSingleUnit) := by
  obtain ⟨significand, weight, hlt, hweight, heq⟩ := exists_units_mul_eq h
  rw [widen, if_pos h, heq]
  exact Double.datum_ofQuotient_exact _ hlt hweight

theorem widen_of_infinity {x : Single} (h : x.magnitude = Precision.single.infinity) :
    x.widen = Double.infinity x.isNegative := by
  rw [widen, if_neg (Nat.not_lt.mpr h.ge), if_pos h]

/-- The payload of a NaN goes to the upper end of the wider fraction. -/
theorem widen_of_infinity_lt {x : Single} (h : Precision.single.infinity < x.magnitude) :
    x.widen = (Double.ofParts x.isNegative
      (0x7FF0000000000000 + (x.magnitude - 0x7F800000) * 2 ^ 29)).quiet := by
  have hspare : Precision.spareFractionBits = 29 := rfl
  rw [widen, if_neg (Nat.not_lt.mpr h.le), if_neg h.ne']
  simp only [infinity_single, Double.infinity_double, hspare, Nat.shiftLeft_eq]

theorem datum_infinity (negative : Bool) : (Double.infinity negative).datum = .infinite negative := by
  cases negative <;> decide

theorem isNaN_widen {x : Single} (h : Precision.single.infinity < x.magnitude) :
    x.widen.isNaN = true := by
  have hmagnitude := x.magnitude_lt
  rw [widen_of_infinity_lt h]
  rw [signWeight_single] at hmagnitude
  rw [infinity_single] at h
  have hroom : 0x7FF0000000000000 + (x.magnitude - 0x7F800000) * 2 ^ 29
      < Precision.double.signWeight := by
    rw [Double.signWeight_double]
    omega
  refine Double.isNaN_quiet ?_
  unfold Double.isNaN
  rw [Double.magnitude_ofParts _ hroom, Double.infinity_double, decide_eq_true_iff]
  omega

/-- Widening keeps the number. -/
theorem value_widen (x : Single) : x.widen.value = x.value := by
  rcases Nat.lt_trichotomy x.magnitude Precision.single.infinity with hlt | heq | hgt
  · rw [value_of_lt_infinity hlt, Double.value_of_finite (datum_widen_of_lt hlt)]
  · rw [value_of_infinity heq, widen_of_infinity heq, Double.value_of_infinite (datum_infinity _)]
  · rw [value_of_infinity_lt hgt]
    exact x.widen.value_eq_none_iff.mpr (isNaN_widen hgt)

end Single

/-! ## Narrowing -/

namespace Double

theorem quiet_of_clear {x : Double} (h : x.magnitude / 0x8000000000000 % 2 = 0) :
    x.quiet = ofParts x.isNegative (x.magnitude + 0x8000000000000) := by
  unfold quiet
  rw [quietBit_double, if_neg (by omega)]

theorem quiet_of_set {x : Double} (h : x.magnitude / 0x8000000000000 % 2 = 1) : x.quiet = x := by
  unfold quiet
  rw [quietBit_double, if_pos h]

theorem narrow_of_finite {x : Double} {negative : Bool} {units : Nat}
    (h : x.datum = .finite negative units) :
    x.narrow = Single.ofParts negative
      (Precision.single.round units Precision.doubleUnitsPerSingleUnit) := by
  unfold narrow
  rw [h]

theorem narrow_of_infinite {x : Double} {negative : Bool} (h : x.datum = .infinite negative) :
    x.narrow = Single.ofParts negative 0x7F800000 := by
  unfold narrow
  rw [h, Single.infinity_single]

/-- A NaN keeps the upper end of its payload. -/
theorem narrow_of_nan {x : Double} (h : x.datum = .nan) :
    x.narrow = (Single.ofParts x.isNegative
      (0x7F800000 + (x.magnitude - 0x7FF0000000000000) / 2 ^ 29)).quiet := by
  have hspare : Precision.spareFractionBits = 29 := rfl
  unfold narrow
  rw [h]
  simp only [Single.infinity_single, infinity_double, hspare, Nat.shiftRight_eq_div_pow]

end Double

namespace Single

/-- The double of a NaN has its quiet bit and the payload in front of zeros. -/
theorem narrow_widen_of_nan {x : Single} (h : Precision.single.infinity < x.magnitude) :
    x.widen.narrow = x.quiet := by
  have hnan := x.widen.datum_eq_nan_iff.mpr (isNaN_widen h)
  have hmagnitude := x.magnitude_lt
  rw [Double.narrow_of_nan hnan, widen_of_infinity_lt h]
  rw [signWeight_single] at hmagnitude
  rw [infinity_single] at h
  have hroom : 0x7FF0000000000000 + (x.magnitude - 0x7F800000) * 2 ^ 29
      < Precision.double.signWeight := by
    rw [Double.signWeight_double]
    omega
  have hwide := Double.magnitude_ofParts x.isNegative hroom
  have hsign := Double.isNegative_ofParts x.isNegative hroom
  -- The quiet bits of both patterns correspond, so both have it or both get it.
  by_cases hset : x.magnitude / 0x400000 % 2 = 1
  · have hpayload : 0x7F800000 + (0x7FF0000000000000 + (x.magnitude - 0x7F800000) * 2 ^ 29
        - 0x7FF0000000000000) / 2 ^ 29 = x.magnitude := by omega
    rw [Double.quiet_of_set (by rw [hwide]; omega), hwide, hsign, hpayload, ofParts_magnitude]
  · have hsum : 0x7FF0000000000000 + (x.magnitude - 0x7F800000) * 2 ^ 29 + 0x8000000000000
        < Precision.double.signWeight := by
      rw [Double.signWeight_double]
      omega
    have hpayload : 0x7F800000 + (0x7FF0000000000000 + (x.magnitude - 0x7F800000) * 2 ^ 29
        + 0x8000000000000 - 0x7FF0000000000000) / 2 ^ 29 = x.magnitude + 0x400000 := by omega
    have hquiet : x.quiet = ofParts x.isNegative (x.magnitude + 0x400000) := by
      unfold quiet
      rw [quietBit_single, if_neg hset]
    rw [Double.quiet_of_clear (by rw [hwide]; omega), hwide, hsign,
      Double.magnitude_ofParts _ hsum, Double.isNegative_ofParts _ hsum, hpayload, ← hquiet,
      quiet_quiet]

theorem narrow_widen_of_le {x : Single} (h : x.magnitude ≤ Precision.single.infinity) :
    x.widen.narrow = x := by
  rcases h.lt_or_eq with hlt | heq
  · rw [Double.narrow_of_finite (datum_widen_of_lt hlt),
      Precision.round_units hlt.le doubleUnitsPerSingleUnit_pos, ofParts_magnitude]
  · rw [widen_of_infinity heq, Double.narrow_of_infinite (datum_infinity _), ← infinity_single,
      ← heq, ofParts_magnitude]

/-- A single that is widened and narrowed again is the same, but for the quiet bit of a NaN. -/
theorem narrow_widen {x : Single} (h : ¬ x.IsSignalling) : x.widen.narrow = x := by
  rcases Nat.lt_or_ge Precision.single.infinity x.magnitude with hgt | hle
  · obtain ⟨hexponent, hfraction⟩ := x.infinity_lt_magnitude_iff.mp hgt
    rw [narrow_widen_of_nan hgt]
    exact quiet_eq_self fun hclear => h ⟨hexponent, hfraction, hclear⟩
  · exact narrow_widen_of_le hle

theorem bits_narrow_widen (x : Single) :
    x.widen.narrow.bits = if x.IsSignalling then x.bits ||| 0x400000 else x.bits := by
  split
  · next h => rw [narrow_widen_of_nan (x.infinity_lt_magnitude_iff.mpr ⟨h.1, h.2.1⟩), bits_quiet]
  · next h => rw [narrow_widen h]

end Single

namespace Double

/-- Narrowing makes NaNs quiet. -/
theorem not_isSignalling_narrow (x : Double) : ¬ x.narrow.IsSignalling := by
  have hweight : Precision.single.infinity < Precision.single.signWeight := by decide
  cases hx : x.datum with
  | finite negative units =>
    have hle := Precision.single.round_le_infinity units Precision.doubleUnitsPerSingleUnit
    rw [narrow_of_finite hx]
    refine Single.not_isSignalling_of_le ?_
    rwa [Single.magnitude_ofParts _ (hle.trans_lt hweight)]
  | infinite negative =>
    rw [narrow_of_infinite hx, ← Single.infinity_single]
    refine Single.not_isSignalling_of_le ?_
    rw [Single.magnitude_ofParts _ hweight]
  | nan =>
    rw [narrow_of_nan hx]
    exact Single.not_isSignalling_quiet _

/-- What has been narrowed once stays as it is. -/
theorem narrow_widen_narrow (x : Double) : x.narrow.widen.narrow = x.narrow :=
  Single.narrow_widen x.not_isSignalling_narrow

/-! ## Nearest singles -/

/-- What narrowing makes of a double: the nearest single with the same sign, the infinity of the
sign, or the NaN with the same sign, the upper end of the payload and the quiet bit. -/
inductive Narrows (x : Double) (y : Single) : Prop
  | finite {units : Nat} (hx : x.datum = .finite x.isNegative units)
      (hsign : y.isNegative = x.isNegative)
      (hnearest : Precision.single.IsNearestEven units Precision.doubleUnitsPerSingleUnit
        y.magnitude)
  | infinite (hx : x.value = some (if x.isNegative then ⊥ else ⊤)) (hy : y.value = x.value)
      (hsign : y.isNegative = x.isNegative)
  | nan (hx : x.value = none) (hsign : y.isNegative = x.isNegative)
      (hexponent : y.exponentField = 0xFF)
      (hfraction : y.fractionField = x.fractionField / 2 ^ 29 ||| 0x400000)

theorem isNegative_of_finite {x : Double} {negative : Bool} {units : Nat}
    (h : x.datum = .finite negative units) : x.isNegative = negative := by
  unfold datum at h
  split at h
  · exact (Datum.finite.inj h).1
  · split at h <;> cases h

theorem isNegative_of_infinite {x : Double} {negative : Bool} (h : x.datum = .infinite negative) :
    x.isNegative = negative := by
  unfold datum at h
  split at h
  · cases h
  · split at h
    · exact Datum.infinite.inj h
    · cases h

/-- The payload of a NaN loses its low bits. -/
theorem narrows_of_nan {x : Double} (hx : x.datum = .nan) : x.Narrows x.narrow := by
  have hmagnitude := x.magnitude_eq
  have hfraction := x.fractionField_lt
  have hexponent := x.exponentField_lt
  have hnan := (x.datum_eq_nan_iff).mp hx
  unfold isNaN at hnan
  rw [infinity_double, decide_eq_true_iff] at hnan
  -- The exponent field is all ones, so the fraction is what lies above infinity.
  have hpayload : (x.magnitude - 0x7FF0000000000000) / 2 ^ 29 = x.fractionField / 2 ^ 29 := by omega
  have hroom : 0x7F800000 + x.fractionField / 2 ^ 29 < Precision.single.signWeight := by
    rw [Single.signWeight_single]
    omega
  rw [narrow_of_nan hx, hpayload]
  refine .nan (value_of_nan hx) ?_ ?_ ?_
  · rw [Single.isNegative_quiet, Single.isNegative_ofParts _ hroom]
  · rw [Single.exponentField_quiet, Single.exponentField_eq, Single.magnitude_ofParts _ hroom]
    omega
  · rw [Single.fractionField_quiet, Single.fractionField_eq, Single.magnitude_ofParts _ hroom]
    congr 1
    omega

theorem narrows_narrow (x : Double) : x.Narrows x.narrow := by
  have hweight : Precision.single.infinity < Precision.single.signWeight := by decide
  cases hx : x.datum with
  | finite negative units =>
    obtain rfl := isNegative_of_finite hx
    have hlt := (Precision.single.round_le_infinity units Precision.doubleUnitsPerSingleUnit).trans_lt
      hweight
    have hnearest := Precision.single.isNearestEven_round (by decide)
      Single.doubleUnitsPerSingleUnit_pos units
    rw [narrow_of_finite hx]
    refine .finite hx (Single.isNegative_ofParts _ hlt) ?_
    rwa [Single.magnitude_ofParts _ hlt]
  | infinite negative =>
    obtain rfl := isNegative_of_infinite hx
    have hvalue := value_of_infinite hx
    rw [narrow_of_infinite hx, ← Single.infinity_single]
    have hsign := Single.isNegative_ofParts x.isNegative hweight
    refine .infinite hvalue ?_ hsign
    rw [hvalue, Single.value_of_infinity (Single.magnitude_ofParts _ hweight), hsign]
  | nan => exact narrows_of_nan hx

end Double

end M68Fpu
