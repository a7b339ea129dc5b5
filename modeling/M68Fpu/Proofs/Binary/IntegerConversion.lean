import M68Fpu.Binary.Integer
import M68Fpu.Instruction.Operand
import M68Fpu.Proofs.AddressingRules
import M68Fpu.Proofs.Binary.SingleConversion
import Mathlib.Data.Rat.Floor

/-!
# Conversions between integers and doubles

An integer of at most 53 bits is a number of a double, so it is converted exactly
(`Double.value_ofInt`). Back, a double becomes its integer part, clamped to 32 bits
(`Double.storedAsLong_toLong`), and every 32-bit integer comes back unchanged (`Double.toLong_ofInt`).

With the single-precision numbers this says which number an operand of each format is
(`LoadFormat.value_value`).
-/

namespace M68Fpu

namespace Double

/-! ## From integers -/

theorem unitsPerOne_double : Precision.double.unitsPerOne = 2 ^ 1074 := by
  have hscale : Precision.double.scale = 1074 := by decide
  rw [Precision.unitsPerOne, Nat.one_shiftLeft]
  exact congrArg (2 ^ ·) hscale

theorem unitsPerOne_pos : 0 < Precision.double.unitsPerOne := by
  rw [unitsPerOne_double]
  apply Nat.two_pow_pos

/-- One is as many units as a unit goes into one. -/
theorem unitsPerOne_mul_unit : (Precision.double.unitsPerOne : ℚ) * unit = 1 := by
  rw [unitsPerOne_double, unit, Nat.cast_pow, Nat.cast_ofNat, ← zpow_natCast,
    ← zpow_add₀ (by norm_num)]
  rfl

theorem datum_ofInt {value : Int} (h : value.natAbs < 2 ^ 53) :
    (ofInt value).datum
      = .finite (decide (value < 0)) (value.natAbs * Precision.double.unitsPerOne) := by
  rw [ofInt, ofRatio, unitsPerOne_double]
  exact datum_ofQuotient_exact _ h (by decide)

theorem signedUnits_natAbs (value : Int) : signedUnits (decide (value < 0)) value.natAbs = value := by
  unfold signedUnits
  by_cases h : value < 0
  · rw [decide_eq_true h, if_pos rfl]
    omega
  · rw [decide_eq_false h, if_neg Bool.false_ne_true]
    omega

theorem signedUnits_mul (negative : Bool) (units count : Nat) :
    signedUnits negative (units * count) = signedUnits negative units * count := by
  unfold signedUnits
  cases negative <;> simp

theorem value_ofInt {value : Int} (h : value.natAbs < 2 ^ 53) :
    (ofInt value).value = some (.ofRat value) := by
  rw [value_of_finite (datum_ofInt h), ofUnits, signedUnits_mul, signedUnits_natAbs, Int.cast_mul,
    Int.cast_natCast, mul_assoc, unitsPerOne_mul_unit, mul_one]

theorem ofInt_zero : ofInt 0 = ⟨0⟩ := by decide +kernel

/-! ## To integers -/

/-- A number without its fraction. -/
def truncate (q : ℚ) : Int := if 0 ≤ q then ⌊q⌋ else ⌈q⌉

/-- The 32-bit integer that a number is stored as: its integer part or the nearer end of the range.
Without a number it is zero. -/
inductive StoredAsLong : Option ExtendedRat → Int → Prop
  | number (q : ℚ) : StoredAsLong (some (.ofRat q)) (max (-2 ^ 31) (min (2 ^ 31 - 1) (truncate q)))
  | negativeInfinity : StoredAsLong (some ⊥) (-2 ^ 31)
  | positiveInfinity : StoredAsLong (some ⊤) (2 ^ 31 - 1)
  | nan : StoredAsLong none 0

theorem truncate_ofUnits (negative : Bool) (units : Nat) :
    truncate (ofUnits negative units)
      = signedUnits negative (units / Precision.double.unitsPerOne) := by
  have hpos : (0 : ℚ) ≤ units / Precision.double.unitsPerOne := by positivity
  have hfloor : ⌊(units : ℚ) / Precision.double.unitsPerOne⌋
      = ((units / Precision.double.unitsPerOne : Nat) : Int) := by
    rw [Rat.floor_natCast_div_natCast, Int.natCast_div]
  have hunit : (units : ℚ) * unit = units / Precision.double.unitsPerOne := by
    have hne : (Precision.double.unitsPerOne : ℚ) ≠ 0 := Nat.cast_ne_zero.mpr unitsPerOne_pos.ne'
    rw [eq_div_iff hne, mul_assoc, mul_comm unit, unitsPerOne_mul_unit, mul_one]
  unfold ofUnits signedUnits truncate
  cases negative with
  | false =>
    simp only [Bool.false_eq_true, if_false, Int.cast_natCast, hunit]
    rw [if_pos hpos, hfloor]
  | true =>
    simp only [if_true, Int.cast_neg, Int.cast_natCast, neg_mul, hunit]
    split
    -- Only zero is neither below zero nor above.
    · next hnonneg =>
      have hzero : (units : ℚ) / Precision.double.unitsPerOne = 0 :=
        le_antisymm (neg_nonneg.mp hnonneg) hpos
      rw [hzero, Int.floor_zero] at hfloor
      rw [hzero, neg_zero, Int.floor_zero, ← hfloor, neg_zero]
    · rw [Int.ceil_neg, hfloor]

theorem toLong_of_finite {x : Double} {negative : Bool} {units : Nat}
    (h : x.datum = .finite negative units) :
    x.toLong = max minLong
      (min maxLong (signedUnits negative (units / Precision.double.unitsPerOne))) := by
  unfold toLong
  rw [h]

theorem storedAsLong_toLong (x : Double) : StoredAsLong x.value x.toLong := by
  cases hx : x.datum with
  | finite negative units =>
    rw [value_of_finite hx, toLong_of_finite hx, ← truncate_ofUnits]
    exact .number _
  | infinite negative =>
    unfold toLong
    rw [value_of_infinite hx, hx]
    cases negative with
    | false => exact .positiveInfinity
    | true => exact .negativeInfinity
  | nan =>
    unfold toLong
    rw [value_of_nan hx, hx]
    exact .nan

theorem toLong_ofInt {value : Int} (hmin : -2 ^ 31 ≤ value) (hmax : value < 2 ^ 31) :
    (ofInt value).toLong = value := by
  have hbits : value.natAbs < 2 ^ 53 := by omega
  rw [toLong_of_finite (datum_ofInt hbits), Nat.mul_div_cancel _ unitsPerOne_pos,
    signedUnits_natAbs, minLong, maxLong]
  omega

end Double

/-! ## The numbers of operands -/

namespace LoadFormat

/-- The signed integer that the low bits of an operand are in an integer format. -/
def integer (format : LoadFormat) (raw : UInt64) : Option Int :=
  match format with
  | byteInteger => some (signed 8 raw.toNat)
  | wordInteger => some (signed 16 raw.toNat)
  | longInteger => some (signed 32 raw.toNat)
  | single | double => none

/-- The number that an operand stands for. -/
def number (format : LoadFormat) (raw : UInt64) : Option ExtendedRat :=
  match format with
  | single => (Single.mk raw.toUInt32).value
  | double => (Double.mk raw).value
  | _ => (format.integer raw).map fun x => .ofRat x

variable {format : LoadFormat} {raw : UInt64} {x : Int}

theorem value_of_integer (h : format.integer raw = some x) : format.value raw = .ofInt x := by
  cases format with
  | byteInteger =>
    obtain rfl := Option.some.inj h
    have hint : raw.toUInt8.toInt8.toInt = signed 8 raw.toUInt8.toNat :=
      BitVec.toInt_eq_toNat_bmod _
    rw [value, hint, raw.toNat_toUInt8, signed_mod]
  | wordInteger =>
    obtain rfl := Option.some.inj h
    have hint : raw.toUInt16.toInt16.toInt = signed 16 raw.toUInt16.toNat :=
      BitVec.toInt_eq_toNat_bmod _
    rw [value, hint, raw.toNat_toUInt16, signed_mod]
  | longInteger =>
    obtain rfl := Option.some.inj h
    have hint : raw.toUInt32.toInt32.toInt = signed 32 raw.toUInt32.toNat :=
      BitVec.toInt_eq_toNat_bmod _
    rw [value, hint, raw.toNat_toUInt32, signed_mod]
  | single | double => cases h

theorem integer_range (h : format.integer raw = some x) : -2 ^ 31 ≤ x ∧ x < 2 ^ 31 := by
  have hmin (bits : Nat) := Int.le_bmod (x := raw.toNat) (Nat.two_pow_pos bits)
  have hmax (bits : Nat) := Int.bmod_lt (x := raw.toNat) (Nat.two_pow_pos bits)
  cases format with
  | byteInteger =>
    obtain rfl := Option.some.inj h
    exact ⟨(by decide : (-2 ^ 31 : Int) ≤ _).trans (hmin 8), (hmax 8).trans_le (by decide)⟩
  | wordInteger =>
    obtain rfl := Option.some.inj h
    exact ⟨(by decide : (-2 ^ 31 : Int) ≤ _).trans (hmin 16), (hmax 16).trans_le (by decide)⟩
  | longInteger =>
    obtain rfl := Option.some.inj h
    exact ⟨hmin 32, (hmax 32).trans_le (by decide)⟩
  | single | double => cases h

theorem natAbs_integer_lt (h : format.integer raw = some x) : x.natAbs < 2 ^ 53 := by
  obtain ⟨hmin, hmax⟩ := integer_range h
  omega

theorem number_of_integer (h : format.integer raw = some x) :
    format.number raw = some (.ofRat x) := by
  cases format with
  | byteInteger | wordInteger | longInteger =>
    exact congrArg (Option.map fun x : Int => ExtendedRat.ofRat x) h
  | single | double => cases h

/-- An operand is loaded as the number that it stands for. -/
theorem value_value (format : LoadFormat) (raw : UInt64) :
    (format.value raw).value = format.number raw := by
  cases hinteger : format.integer raw with
  | some x =>
    rw [value_of_integer hinteger, number_of_integer hinteger,
      Double.value_ofInt (natAbs_integer_lt hinteger)]
  | none =>
    cases format with
    | single => exact (Single.mk raw.toUInt32).value_widen
    | double => rfl
    | byteInteger | wordInteger | longInteger => cases hinteger

end LoadFormat

end M68Fpu
