import M68Fpu.Proofs.Binary.Rounding
import M68Fpu.Proofs.Binary.Value

/-!
# The difference decides the order

A comparison subtracts and looks at the sign, at zero and at NaN of the rounded result. Rounding
never turns a difference of the least unit or more into zero, and overflow keeps the sign, so the
result tells exactly how two numbers are ordered (`Compared`, `compared_sub`). Two infinities of the
same sign have no difference: their comparison ends like that of a NaN.
-/

namespace M68Fpu

/-! ## Rounding -/

/-- A positive whole number of units is not rounded to zero: no more bits are dropped than keep the
highest one. -/
theorem Precision.round_ne_zero {p : Precision} {units : Nat} (hunits : units ≠ 0)
    (hinfinity : p.infinity ≠ 0) : p.round units 1 ≠ 0 := by
  -- At most `log2 units` bits are dropped, so the quotient keeps the highest bit.
  have hdrop : 1 <<< (units.log2 - p.fractionBits) ≤ units := by
    rw [Nat.one_shiftLeft]
    exact Nat.le_trans (Nat.pow_le_pow_right (by decide) (Nat.sub_le _ _))
      (Nat.log2_self_le hunits)
  have hquotient : 0 < units / 1 <<< (units.log2 - p.fractionBits) :=
    Nat.div_pos hdrop (by rw [Nat.one_shiftLeft]; exact Nat.two_pow_pos _)
  have hrounded := Nat.lt_of_lt_of_le hquotient (le_roundQuotient _ _)
  unfold round
  rw [Nat.div_one]
  exact Nat.ne_of_gt (Nat.lt_min.mpr
    ⟨Nat.lt_of_lt_of_le hrounded (Nat.le_add_left _ _), Nat.pos_of_ne_zero hinfinity⟩)

namespace Double

/-! ## Patterns made of parts -/

theorem magnitude_ofParts {magnitude : Nat} (negative : Bool)
    (h : magnitude < Precision.double.signWeight) :
    (ofParts negative magnitude).magnitude = magnitude := by
  rw [signWeight_double] at h
  simp only [Double.magnitude, ofParts, signWeight_double, UInt64.toNat_ofNat']
  cases negative <;> simp <;> omega

theorem isNegative_ofParts {magnitude : Nat} (negative : Bool)
    (h : magnitude < Precision.double.signWeight) :
    (ofParts negative magnitude).isNegative = negative := by
  rw [signWeight_double] at h
  simp only [isNegative, ofParts, signWeight_double, UInt64.toNat_ofNat']
  cases negative <;> simp <;> omega

theorem magnitude_lt (x : Double) : x.magnitude < Precision.double.signWeight :=
  Nat.mod_lt _ (by decide)

theorem datum_neg (x : Double) :
    x.neg.datum = match x.datum with
      | .nan => .nan
      | .infinite negative => .infinite (!negative)
      | .finite negative units => .finite (!negative) units := by
  have hmagnitude : x.neg.magnitude = x.magnitude := magnitude_ofParts _ x.magnitude_lt
  have hnegative : x.neg.isNegative = !x.isNegative := isNegative_ofParts _ x.magnitude_lt
  unfold datum
  rw [hmagnitude, hnegative]
  split
  · rfl
  · split <;> rfl

/-- A NaN that has been made quiet is a NaN. -/
theorem isNaN_quiet {x : Double} (h : x.isNaN = true) : x.quiet.isNaN = true := by
  have hmagnitude := x.magnitude_lt
  rw [signWeight_double] at hmagnitude
  unfold quiet
  rw [quietBit_double]
  split
  · exact h
  · next hquiet =>
    -- The quiet bit is clear, so adding it sets it and carries into nothing.
    have hroom : x.magnitude + 0x8000000000000 < Precision.double.signWeight := by
      rw [signWeight_double]
      omega
    unfold isNaN at h ⊢
    rw [magnitude_ofParts _ hroom]
    rw [infinity_double, decide_eq_true_eq] at h ⊢
    omega

/-! ## Results of a subtraction -/

/-- How two doubles are ordered, and what a difference shows of it. -/
inductive Compared (x y difference : Double) : Prop
  | unordered (hnan : difference.isNaN = true)
      (h : x.value = none ∨ y.value = none ∨ x.SameInfinity y)
  | equal (hnan : difference.isNaN = false) (hzero : difference.magnitude = 0) (h : x.Equals y)
      (hinfinite : ¬ x.SameInfinity y)
  | less (hnan : difference.isNaN = false) (hzero : difference.magnitude ≠ 0)
      (hnegative : difference.isNegative = true) (h : x.Less y)
  | greater (hnan : difference.isNaN = false) (hzero : difference.magnitude ≠ 0)
      (hnegative : difference.isNegative = false) (h : y.Less x)

variable {x y : Double} {s t : Bool} {u v : Nat}

theorem isNaN_zero (negative : Bool) : (zero negative).isNaN = false := by
  cases negative <;> decide

theorem magnitude_zero (negative : Bool) : (zero negative).magnitude = 0 := by
  cases negative <;> decide

theorem isNaN_infinity (negative : Bool) : (infinity negative).isNaN = false := by
  cases negative <;> decide

theorem magnitude_infinity (negative : Bool) : (infinity negative).magnitude ≠ 0 := by
  cases negative <;> decide

theorem isNegative_infinity (negative : Bool) : (infinity negative).isNegative = negative := by
  cases negative <;> decide

/-- What is left of a positive whole number of units after rounding. -/
theorem ofQuotient_spec {units : Nat} (negative : Bool) (hunits : units ≠ 0) :
    (ofQuotient negative units 1).isNaN = false ∧ (ofQuotient negative units 1).magnitude ≠ 0 ∧
      (ofQuotient negative units 1).isNegative = negative := by
  have hinfinity : Precision.double.infinity ≠ 0 := by decide
  have hle := Precision.double.round_le_infinity units 1
  have hlt : Precision.double.round units 1 < Precision.double.signWeight :=
    Nat.lt_of_le_of_lt hle (by decide)
  unfold ofQuotient
  refine ⟨?_, ?_, isNegative_ofParts _ hlt⟩
  · unfold isNaN
    rw [magnitude_ofParts _ hlt, decide_eq_false_iff_not, Nat.not_lt]
    exact hle
  · rw [magnitude_ofParts _ hlt]
    exact Precision.round_ne_zero hunits hinfinity

theorem value_of_finite (h : x.datum = .finite s u) :
    x.value = some (.ofRat (ofUnits s u)) := by
  rw [value_eq_of_datum, h]

theorem value_of_infinite (h : x.datum = .infinite s) : x.value = some (if s then ⊥ else ⊤) := by
  rw [value_eq_of_datum, h]

theorem value_of_nan (h : x.datum = .nan) : x.value = none := by
  rw [value_eq_of_datum, h]

theorem less_of_finite (hx : x.datum = .finite s u) (hy : y.datum = .finite t v)
    (h : signedUnits s u < signedUnits t v) : x.Less y :=
  ⟨_, _, value_of_finite hx, value_of_finite hy,
    ExtendedRat.ofRat_lt_iff.mpr (ofUnits_lt_iff.mpr h)⟩

theorem not_sameInfinity_of_finite (hx : x.datum = .finite s u) : ¬ x.SameInfinity y := by
  rintro (⟨h, -⟩ | ⟨h, -⟩) <;> rw [value_of_finite hx] at h
  · exact ExtendedRat.ofRat_ne_bot _ (Option.some.inj h)
  · exact ExtendedRat.ofRat_ne_top _ (Option.some.inj h)

theorem compared_sum (hx : x.datum = .finite s u) (hy : y.datum = .finite t v) :
    Compared x y (sum s u (!t) v) := by
  have hopposite : signedUnits (!t) v = -signedUnits t v := by
    cases t <;> simp [signedUnits]
  unfold sum
  dsimp only
  rw [hopposite]
  rcases Int.lt_trichotomy (signedUnits s u) (signedUnits t v) with hlt | heq | hgt
  -- The first operand is smaller: the difference is negative and stays so when it is rounded.
  · have htotal : signedUnits s u + -signedUnits t v < 0 := by omega
    obtain ⟨hnan, hzero, hnegative⟩ := ofQuotient_spec true (Int.natAbs_ne_zero.mpr htotal.ne)
    rw [if_neg htotal.ne, decide_eq_true htotal]
    exact .less hnan hzero hnegative (less_of_finite hx hy hlt)
  -- Equal numbers have the difference zero, whose sign does not matter.
  · have htotal : signedUnits s u + -signedUnits t v = 0 := by omega
    have hequals : x.Equals y := by
      refine ⟨_, value_of_finite hx, ?_⟩
      rw [value_of_finite hy, ofUnits, ofUnits, heq]
    rw [if_pos htotal]
    exact .equal (isNaN_zero _) (magnitude_zero _) hequals (not_sameInfinity_of_finite hx)
  · have htotal : 0 < signedUnits s u + -signedUnits t v := by omega
    obtain ⟨hnan, hzero, hnegative⟩ := ofQuotient_spec false (Int.natAbs_ne_zero.mpr htotal.ne')
    rw [if_neg htotal.ne', decide_eq_false (by omega)]
    exact .greater hnan hzero hnegative (less_of_finite hy hx hgt)

theorem ofRat_ne_infinity (q : ℚ) (negative : Bool) :
    ExtendedRat.ofRat q ≠ if negative then ⊥ else ⊤ := by
  cases negative with
  | true => exact ExtendedRat.ofRat_ne_bot q
  | false => exact ExtendedRat.ofRat_ne_top q

/-- An infinity is its sign: it orders itself against everything but itself and NaNs. -/
theorem compared_infinity_left (hx : x.datum = .infinite s) {b : ExtendedRat}
    (hy : y.value = some b) (hb : b ≠ if s then ⊥ else ⊤) : Compared x y (infinity s) := by
  cases s with
  | true =>
    exact .less (isNaN_infinity _) (magnitude_infinity _) (isNegative_infinity _)
      ⟨_, _, value_of_infinite hx, hy, bot_lt_iff_ne_bot.mpr hb⟩
  | false =>
    exact .greater (isNaN_infinity _) (magnitude_infinity _) (isNegative_infinity _)
      ⟨_, _, hy, value_of_infinite hx, lt_top_iff_ne_top.mpr hb⟩

theorem compared_infinity_right (hy : y.datum = .infinite t) {a : ExtendedRat}
    (hx : x.value = some a) (ha : a ≠ if t then ⊥ else ⊤) : Compared x y (infinity (!t)) := by
  cases t with
  | true =>
    exact .greater (isNaN_infinity _) (magnitude_infinity _) (isNegative_infinity _)
      ⟨_, _, value_of_infinite hy, hx, bot_lt_iff_ne_bot.mpr ha⟩
  | false =>
    exact .less (isNaN_infinity _) (magnitude_infinity _) (isNegative_infinity _)
      ⟨_, _, hx, value_of_infinite hy, lt_top_iff_ne_top.mpr ha⟩

/-- Infinities of the same sign have no difference; of opposite signs the first one decides. -/
theorem compared_infinities (hx : x.datum = .infinite s) (hy : y.datum = .infinite t) :
    Compared x y (if s = !t then infinity s else invalid) := by
  have hinvalid : invalid.isNaN = true := by decide
  have hvalue := value_of_infinite hx
  have hvalue' := value_of_infinite hy
  cases s <;> cases t
  · exact .unordered hinvalid (.inr (.inr (.inr ⟨hvalue, hvalue'⟩)))
  · exact compared_infinity_left hx hvalue' (by simp)
  · exact compared_infinity_left hx hvalue' (by simp)
  · exact .unordered hinvalid (.inr (.inr (.inl ⟨hvalue, hvalue'⟩)))

theorem compared_nan_left (hx : x.datum = .nan) : Compared x y x.quiet :=
  .unordered (isNaN_quiet ((datum_eq_nan_iff x).mp hx)) (.inl (value_of_nan hx))

theorem compared_nan_right (hy : y.datum = .nan) : Compared x y y.quiet :=
  .unordered (isNaN_quiet ((datum_eq_nan_iff y).mp hy)) (.inr (.inl (value_of_nan hy)))

theorem sub_of_number (x : Double) (hy : y.datum ≠ .nan) : x.sub y = x.add y.neg := by
  have hnumber : ¬ y.isNaN = true := by rwa [← datum_eq_nan_iff]
  unfold sub
  rw [if_neg hnumber]

/-- The rounded difference of any two doubles tells how they are ordered. -/
theorem compared_sub (x y : Double) : Compared x y (x.sub y) := by
  cases hy : y.datum with
  | nan =>
    -- A NaN is not negated but added as it is, and the first of two NaNs is the result.
    have hnan := (datum_eq_nan_iff y).mp hy
    unfold sub add
    rw [if_pos hnan, hy]
    cases hx : x.datum with
    | nan => exact compared_nan_left hx
    | finite | infinite => exact compared_nan_right hy
  | finite t v =>
    rw [sub_of_number x (by rw [hy]; nofun)]
    unfold add
    rw [datum_neg, hy]
    cases hx : x.datum with
    | nan => exact compared_nan_left hx
    | finite s u => exact compared_sum hx hy
    | infinite s => exact compared_infinity_left hx (value_of_finite hy) (ofRat_ne_infinity _ s)
  | infinite t =>
    rw [sub_of_number x (by rw [hy]; nofun)]
    unfold add
    rw [datum_neg, hy]
    cases hx : x.datum with
    | nan => exact compared_nan_left hx
    | finite s u => exact compared_infinity_right hy (value_of_finite hx) (ofRat_ne_infinity _ t)
    | infinite s => exact compared_infinities hx hy

end Double

end M68Fpu
