import Mathlib.Algebra.Order.Ring.Nat
import Mathlib.Data.Nat.Dist
import Mathlib.Order.Monotone.Basic
import M68Fpu.Binary.Precision

/-!
# Rounding to the magnitudes of a precision

Every magnitude is a significand in front of a number of dropped bits (`Precision.assemble`), and a
quotient is rounded by finding both. Numbers that a precision holds are rounded to themselves
(`Precision.round_units`); all others go to the nearest magnitude, and to the even one of two that are
equally near (`Precision.isNearestEven_round`).
-/

namespace M68Fpu

namespace Precision

variable {p : Precision} {drop significand numerator denominator magnitude : Nat}

/-! ## Quotients -/

/-- The two ways in which a quotient is rounded. -/
theorem roundQuotient_cases (numerator denominator : Nat) :
    (roundQuotient numerator denominator = numerator / denominator ∧
      (2 * (numerator % denominator) < denominator ∨
        2 * (numerator % denominator) = denominator ∧ numerator / denominator % 2 = 0)) ∨
    (roundQuotient numerator denominator = numerator / denominator + 1 ∧
      (denominator < 2 * (numerator % denominator) ∨
        2 * (numerator % denominator) = denominator ∧ numerator / denominator % 2 = 1)) := by
  unfold roundQuotient
  dsimp only
  split <;> omega

/-- A rounded quotient is the quotient or one more. -/
theorem le_roundQuotient (numerator denominator : Nat) :
    numerator / denominator ≤ roundQuotient numerator denominator := by
  rcases roundQuotient_cases numerator denominator with ⟨h, -⟩ | ⟨h, -⟩ <;> omega

theorem roundQuotient_le (numerator denominator : Nat) :
    roundQuotient numerator denominator ≤ numerator / denominator + 1 := by
  rcases roundQuotient_cases numerator denominator with ⟨h, -⟩ | ⟨h, -⟩ <;> omega

theorem roundQuotient_mul (quotient : Nat) (hdenominator : 0 < denominator) :
    roundQuotient (quotient * denominator) denominator = quotient := by
  have hrest : quotient * denominator % denominator = 0 := Nat.mul_mod_left _ _
  unfold roundQuotient
  dsimp only
  rw [hrest, Nat.mul_div_cancel _ hdenominator, if_neg (by omega)]

/-- A multiple of a number lies at or below the quotient's or at least one step above it. -/
theorem mul_le_or_le_mul (quotient other denominator : Nat) :
    other ≤ quotient ∧ other * denominator ≤ quotient * denominator ∨
      other = quotient + 1 ∧ other * denominator = quotient * denominator + denominator ∨
        quotient + 2 ≤ other ∧
          quotient * denominator + 2 * denominator ≤ other * denominator := by
  rcases Nat.lt_trichotomy other (quotient + 1) with hlt | rfl | hgt
  · exact .inl ⟨Nat.le_of_lt_succ hlt, Nat.mul_le_mul_right _ (Nat.le_of_lt_succ hlt)⟩
  · exact .inr (.inl ⟨rfl, Nat.succ_mul _ _⟩)
  · refine .inr (.inr ⟨hgt, ?_⟩)
    rw [← Nat.add_mul]
    exact Nat.mul_le_mul_right _ hgt

/-- No multiple of the denominator is nearer than the rounded one. -/
theorem dist_roundQuotient_le (hdenominator : 0 < denominator) (numerator other : Nat) :
    Nat.dist (roundQuotient numerator denominator * denominator) numerator
      ≤ Nat.dist (other * denominator) numerator := by
  have hnumerator := Nat.div_add_mod' numerator denominator
  have hrest := Nat.mod_lt numerator hdenominator
  have hother := mul_le_or_le_mul (numerator / denominator) other denominator
  unfold Nat.dist
  rcases roundQuotient_cases numerator denominator with ⟨hround, h⟩ | ⟨hround, h⟩
  · rw [hround]
    omega
  · rw [hround, Nat.succ_mul]
    omega

/-- Of two multiples that are equally near the even one is taken. -/
theorem even_roundQuotient_of_tie (hdenominator : 0 < denominator) {numerator other : Nat}
    (hne : other ≠ roundQuotient numerator denominator)
    (htie : Nat.dist (other * denominator) numerator
      = Nat.dist (roundQuotient numerator denominator * denominator) numerator) :
    roundQuotient numerator denominator % 2 = 0 := by
  have hnumerator := Nat.div_add_mod' numerator denominator
  have hrest := Nat.mod_lt numerator hdenominator
  have hother := mul_le_or_le_mul (numerator / denominator) other denominator
  -- A multiple that lies as far away is not on the far side of the quotient.
  have hbelow : other < numerator / denominator →
      other * denominator + denominator ≤ numerator / denominator * denominator := by
    intro hlt
    rw [← Nat.succ_mul]
    exact Nat.mul_le_mul_right _ hlt
  unfold Nat.dist at htie
  rcases roundQuotient_cases numerator denominator with ⟨hround, h⟩ | ⟨hround, h⟩
  · rw [hround] at htie hne ⊢
    omega
  · rw [hround, Nat.succ_mul] at htie
    rw [hround] at hne ⊢
    omega

/-! ## Magnitudes -/

/-- Whether a significand can stand in front of `drop` dropped bits: it fits, or has just been
carried, and it has its hidden bit if any bit was dropped. -/
structure IsSignificand (p : Precision) (drop significand : Nat) : Prop where
  le : significand ≤ 2 ^ (p.fractionBits + 1)
  hidden : drop = 0 ∨ 2 ^ p.fractionBits ≤ significand

/-- The magnitude of a significand in front of `drop` dropped bits. The hidden bit adds one to the
exponent field. -/
def assemble (p : Precision) (drop significand : Nat) : Nat :=
  drop * 2 ^ p.fractionBits + significand

/-- The units of a magnitude, by its two fields. -/
theorem units_fields {exponent fraction : Nat} (hfraction : fraction < 2 ^ p.fractionBits) :
    p.units (exponent * 2 ^ p.fractionBits + fraction) =
      if exponent = 0 then fraction
      else (2 ^ p.fractionBits + fraction) * 2 ^ (exponent - 1) := by
  have hpos := Nat.two_pow_pos p.fractionBits
  have hexponent : (exponent * 2 ^ p.fractionBits + fraction) / 2 ^ p.fractionBits = exponent := by
    rw [Nat.mul_comm, Nat.mul_add_div hpos, Nat.div_eq_of_lt hfraction, Nat.add_zero]
  have hrest : (exponent * 2 ^ p.fractionBits + fraction) % 2 ^ p.fractionBits = fraction := by
    rw [Nat.mul_comm, Nat.mul_add_mod, Nat.mod_eq_of_lt hfraction]
  simp only [units, Nat.shiftRight_eq_div_pow, Nat.shiftLeft_eq, Nat.one_mul, hexponent, hrest]

theorem units_assemble (h : p.IsSignificand drop significand) :
    p.units (p.assemble drop significand) = significand * 2 ^ drop := by
  have hpos := Nat.two_pow_pos p.fractionBits
  have hle := h.le
  rw [Nat.pow_succ'] at hle
  unfold assemble
  by_cases hsubnormal : significand < 2 ^ p.fractionBits
  · obtain rfl : drop = 0 := h.hidden.resolve_right (Nat.not_le.mpr hsubnormal)
    rw [units_fields hsubnormal, if_pos rfl, Nat.pow_zero, Nat.mul_one]
  · by_cases hcarried : significand = 2 * 2 ^ p.fractionBits
    -- A significand that has been carried is the least one behind the next exponent.
    · have hfields : drop * 2 ^ p.fractionBits + significand
          = (drop + 2) * 2 ^ p.fractionBits + 0 := by
        rw [hcarried, Nat.add_mul, Nat.add_zero]
      have hweight : 2 ^ (drop + 2 - 1) = 2 * 2 ^ drop := Nat.pow_succ'
      rw [hfields, units_fields hpos, if_neg (Nat.succ_ne_zero _), hcarried, Nat.add_zero, hweight,
        Nat.mul_left_comm, Nat.mul_assoc]
    · obtain ⟨fraction, rfl⟩ := Nat.exists_eq_add_of_le (Nat.le_of_not_lt hsubnormal)
      have hfields : drop * 2 ^ p.fractionBits + (2 ^ p.fractionBits + fraction)
          = (drop + 1) * 2 ^ p.fractionBits + fraction := by
        rw [Nat.add_mul, Nat.one_mul, Nat.add_assoc]
      rw [hfields, units_fields (by omega), if_neg (Nat.succ_ne_zero _), Nat.add_sub_cancel]

/-- Every magnitude has a significand that has not been carried. -/
theorem exists_assemble (p : Precision) (magnitude : Nat) :
    ∃ drop significand, p.IsSignificand drop significand ∧
      significand < 2 ^ (p.fractionBits + 1) ∧ p.assemble drop significand = magnitude := by
  have hpos := Nat.two_pow_pos p.fractionBits
  have hfraction := Nat.mod_lt magnitude hpos
  have hfields := Nat.div_add_mod' magnitude (2 ^ p.fractionBits)
  have hdouble : 2 ^ (p.fractionBits + 1) = 2 * 2 ^ p.fractionBits := Nat.pow_succ'
  unfold assemble
  cases hexponent : magnitude / 2 ^ p.fractionBits with
  | zero =>
    rw [hexponent, Nat.zero_mul, Nat.zero_add] at hfields
    refine ⟨0, magnitude, ⟨?_, .inl rfl⟩, ?_, by rw [Nat.zero_mul, Nat.zero_add]⟩ <;> omega
  | succ drop =>
    rw [hexponent, Nat.succ_mul] at hfields
    refine ⟨drop, 2 ^ p.fractionBits + magnitude % 2 ^ p.fractionBits, ⟨?_, .inr ?_⟩, ?_, ?_⟩ <;>
      omega

/-- The next magnitude has one unit of the last place more. -/
theorem units_lt_units_succ (p : Precision) (magnitude : Nat) :
    p.units magnitude < p.units (magnitude + 1) := by
  obtain ⟨drop, significand, hsignificand, hlt, rfl⟩ := p.exists_assemble magnitude
  have hnext : p.IsSignificand drop (significand + 1) :=
    ⟨hlt, hsignificand.hidden.imp_right Nat.le_succ_of_le⟩
  have hassemble : p.assemble drop significand + 1 = p.assemble drop (significand + 1) :=
    Nat.add_assoc _ _ _
  rw [hassemble, units_assemble hsignificand, units_assemble hnext]
  exact Nat.mul_lt_mul_of_pos_right (Nat.lt_succ_self _) (Nat.two_pow_pos _)

theorem units_strictMono (p : Precision) : StrictMono p.units :=
  strictMono_nat_of_lt_succ p.units_lt_units_succ

/-! ## Exact numbers -/

theorem round_le_infinity (p : Precision) (numerator denominator : Nat) :
    p.round numerator denominator ≤ p.infinity :=
  Nat.min_le_right _ _

/-- How many bits of a significand with its weight are dropped again. -/
theorem log2_sub_fractionBits (hsignificand : p.IsSignificand drop significand)
    (hlt : significand < 2 ^ (p.fractionBits + 1)) :
    (significand * 2 ^ drop).log2 - p.fractionBits = drop := by
  rcases hsignificand.hidden with rfl | hhidden
  · rw [Nat.pow_zero, Nat.mul_one]
    by_cases hzero : significand = 0
    · rw [hzero, Nat.log2_zero, Nat.zero_sub]
    · have hlog := (Nat.log2_lt hzero).mpr hlt
      omega
  · have hpos := Nat.two_pow_pos p.fractionBits
    have hne : significand * 2 ^ drop ≠ 0 :=
      Nat.mul_ne_zero (by omega) (Nat.two_pow_pos drop).ne'
    have hlog : (significand * 2 ^ drop).log2 = p.fractionBits + drop := by
      rw [Nat.log2_eq_iff hne, Nat.pow_add, Nat.add_right_comm, Nat.pow_add 2 (p.fractionBits + 1)]
      exact ⟨Nat.mul_le_mul_right _ hhidden,
        Nat.mul_lt_mul_of_pos_right hlt (Nat.two_pow_pos drop)⟩
    rw [hlog, Nat.add_sub_cancel_left]

/-- Rounding drops the bits that do not fit and rounds the rest. -/
theorem round_eq (p : Precision) {numerator denominator drop : Nat}
    (hdrop : (numerator / denominator).log2 - p.fractionBits = drop) :
    p.round numerator denominator =
      min (p.assemble drop (roundQuotient numerator (denominator * 2 ^ drop))) p.infinity := by
  unfold round assemble
  rw [hdrop]
  simp only [Nat.shiftLeft_eq]

theorem round_mul (hsignificand : p.IsSignificand drop significand)
    (hlt : significand < 2 ^ (p.fractionBits + 1)) (hdenominator : 0 < denominator) :
    p.round (significand * 2 ^ drop * denominator) denominator =
      min (p.assemble drop significand) p.infinity := by
  have hscaled : significand * 2 ^ drop * denominator
      = significand * (denominator * 2 ^ drop) := by
    rw [Nat.mul_assoc, Nat.mul_comm (2 ^ drop)]
  have hpos : 0 < denominator * 2 ^ drop := Nat.mul_pos hdenominator (Nat.two_pow_pos drop)
  have hdrop : (significand * 2 ^ drop * denominator / denominator).log2 - p.fractionBits = drop := by
    rw [Nat.mul_div_cancel _ hdenominator, log2_sub_fractionBits hsignificand hlt]
  rw [p.round_eq hdrop, hscaled, roundQuotient_mul _ hpos]

/-- What a magnitude stands for is rounded to the magnitude. -/
theorem round_units (hmagnitude : magnitude ≤ p.infinity) (hdenominator : 0 < denominator) :
    p.round (p.units magnitude * denominator) denominator = magnitude := by
  obtain ⟨drop, significand, hsignificand, hlt, rfl⟩ := p.exists_assemble magnitude
  rw [units_assemble hsignificand, round_mul hsignificand hlt hdenominator,
    Nat.min_eq_left hmagnitude]

/-- A number whose significant bits fit has a significand with no more dropped bits. The induction
shifts them up until the hidden bit is there. -/
theorem exists_isSignificand {weight : Nat} (hlt : significand < 2 ^ (p.fractionBits + 1)) :
    ∃ drop normalized, p.IsSignificand drop normalized ∧
      normalized < 2 ^ (p.fractionBits + 1) ∧ drop ≤ weight ∧
      normalized * 2 ^ drop = significand * 2 ^ weight := by
  induction weight generalizing significand with
  | zero => exact ⟨0, significand, ⟨hlt.le, .inl rfl⟩, hlt, Nat.le_refl _, rfl⟩
  | succ weight ih =>
    by_cases hhidden : 2 ^ p.fractionBits ≤ significand
    · exact ⟨weight + 1, significand, ⟨hlt.le, .inr hhidden⟩, hlt, Nat.le_refl _, rfl⟩
    · have hdouble : 2 * significand < 2 ^ (p.fractionBits + 1) := by
        rw [Nat.pow_succ']
        omega
      obtain ⟨drop, normalized, hnormalized, hfits, hdrop, heq⟩ := ih hdouble
      refine ⟨drop, normalized, hnormalized, hfits, Nat.le_succ_of_le hdrop, ?_⟩
      rw [heq, Nat.pow_succ', Nat.mul_left_comm, Nat.mul_assoc]

/-- A number whose significant bits fit is the units of a finite magnitude, unless it is too large. -/
theorem exists_units_eq {weight : Nat} (hlt : significand < 2 ^ (p.fractionBits + 1))
    (hweight : p.assemble weight (2 ^ (p.fractionBits + 1)) ≤ p.infinity) :
    ∃ magnitude, magnitude < p.infinity ∧ p.units magnitude = significand * 2 ^ weight := by
  obtain ⟨drop, normalized, hnormalized, hfits, hdrop, heq⟩ := exists_isSignificand hlt
  refine ⟨p.assemble drop normalized, ?_, (units_assemble hnormalized).trans heq⟩
  have hshift : drop * 2 ^ p.fractionBits ≤ weight * 2 ^ p.fractionBits :=
    Nat.mul_le_mul_right _ hdrop
  unfold assemble at hweight ⊢
  omega

/-! ## Nearest magnitudes -/

/-- Whether a magnitude is the nearest to a quotient of units that there is, and the even one of two
that are equally near. Infinity counts as the next power of two above the finite magnitudes. -/
structure IsNearestEven (p : Precision) (numerator denominator result : Nat) : Prop where
  le_infinity : result ≤ p.infinity
  nearest : ∀ other ≤ p.infinity,
    Nat.dist (p.units result * denominator) numerator
      ≤ Nat.dist (p.units other * denominator) numerator
  even_of_tie : ∀ other ≤ p.infinity, other ≠ result →
    Nat.dist (p.units other * denominator) numerator
      = Nat.dist (p.units result * denominator) numerator → result % 2 = 0

/-- The bits that are not dropped are a significand, which may have been carried, and it has its
hidden bit before it is rounded if any bit is dropped. -/
theorem isSignificand_roundQuotient
    (hdrop : (numerator / denominator).log2 - p.fractionBits = drop) :
    p.IsSignificand drop (roundQuotient numerator (denominator * 2 ^ drop)) ∧
      (drop = 0 ∨ 2 ^ p.fractionBits ≤ numerator / (denominator * 2 ^ drop)) := by
  have hle := le_roundQuotient numerator (denominator * 2 ^ drop)
  have hge := roundQuotient_le numerator (denominator * 2 ^ drop)
  rw [← Nat.div_div_eq_div_mul] at hle hge ⊢
  generalize numerator / denominator = quotient at *
  have hfits : quotient / 2 ^ drop < 2 ^ (p.fractionBits + 1) := by
    have hlog : quotient < 2 ^ drop * 2 ^ (p.fractionBits + 1) := by
      rw [← Nat.pow_add]
      exact Nat.lt_of_lt_of_le Nat.lt_log2_self (Nat.pow_le_pow_right (by decide) (by omega))
    exact Nat.div_lt_of_lt_mul hlog
  have hhidden : drop = 0 ∨ 2 ^ p.fractionBits ≤ quotient / 2 ^ drop := by
    refine (Nat.eq_zero_or_pos drop).imp_right fun hpos => ?_
    have hlog : quotient.log2 = p.fractionBits + drop := by omega
    have hne : quotient ≠ 0 := by
      rintro rfl
      rw [Nat.log2_zero] at hlog
      omega
    rw [Nat.le_div_iff_mul_le (Nat.two_pow_pos drop), ← Nat.pow_add, ← hlog]
    exact Nat.log2_self_le hne
  exact ⟨⟨by omega, hhidden.imp_right hle.trans'⟩, hhidden⟩

/-- Some multiple of the last place that is kept is at least as near as any magnitude, and is that
magnitude if it is no nearer. Magnitudes with finer places lie below the least hidden bit. -/
theorem exists_multiple_dist_le
    (hdrop : (numerator / denominator).log2 - p.fractionBits = drop) (other : Nat) :
    ∃ multiple, Nat.dist (multiple * (denominator * 2 ^ drop)) numerator
        ≤ Nat.dist (p.units other * denominator) numerator ∧
      (Nat.dist (multiple * (denominator * 2 ^ drop)) numerator
        = Nat.dist (p.units other * denominator) numerator →
          multiple * (denominator * 2 ^ drop) = p.units other * denominator) := by
  obtain ⟨finer, significand, hsignificand, hlt, rfl⟩ := p.exists_assemble other
  rw [units_assemble hsignificand]
  by_cases hfiner : drop ≤ finer
  · refine ⟨significand * 2 ^ (finer - drop), ?_⟩
    have hmultiple : significand * 2 ^ (finer - drop) * (denominator * 2 ^ drop)
        = significand * 2 ^ finer * denominator := by
      rw [← Nat.sub_add_cancel hfiner, Nat.add_sub_cancel, Nat.pow_add]
      ac_rfl
    rw [hmultiple]
    exact ⟨Nat.le_refl _, fun _ => rfl⟩
  · have hhidden : 2 ^ p.fractionBits ≤ numerator / (denominator * 2 ^ drop) :=
      (isSignificand_roundQuotient hdrop).2.resolve_left (by omega)
    have hnumerator : 2 ^ p.fractionBits * (denominator * 2 ^ drop) ≤ numerator :=
      (Nat.mul_le_mul_right _ hhidden).trans (Nat.div_mul_le_self _ _)
    have hbelow : significand * 2 ^ finer * denominator
        ≤ 2 ^ p.fractionBits * (denominator * 2 ^ drop) := by
      have hplace : significand * 2 ^ finer ≤ 2 ^ p.fractionBits * 2 ^ drop :=
        calc
          significand * 2 ^ finer ≤ 2 ^ (p.fractionBits + 1) * 2 ^ finer :=
            Nat.mul_le_mul_right _ hlt.le
          _ = 2 ^ (p.fractionBits + (finer + 1)) := by rw [← Nat.pow_add]; congr 1; omega
          _ ≤ 2 ^ (p.fractionBits + drop) := Nat.pow_le_pow_right (by decide) (by omega)
          _ = 2 ^ p.fractionBits * 2 ^ drop := Nat.pow_add ..
      calc
        significand * 2 ^ finer * denominator ≤ 2 ^ p.fractionBits * 2 ^ drop * denominator :=
          Nat.mul_le_mul_right _ hplace
        _ = 2 ^ p.fractionBits * (denominator * 2 ^ drop) := by ac_rfl
    refine ⟨2 ^ p.fractionBits, ?_⟩
    unfold Nat.dist
    omega

/-- The number that the kept bits stand for is a multiple of the last place. -/
theorem units_assemble_roundQuotient
    (hdrop : (numerator / denominator).log2 - p.fractionBits = drop) :
    p.units (p.assemble drop (roundQuotient numerator (denominator * 2 ^ drop))) * denominator
      = roundQuotient numerator (denominator * 2 ^ drop) * (denominator * 2 ^ drop) := by
  rw [units_assemble (isSignificand_roundQuotient hdrop).1, Nat.mul_assoc, Nat.mul_comm (2 ^ drop)]

/-- No magnitude is nearer than the kept bits, not even beyond infinity. -/
theorem dist_assemble_le (hdenominator : 0 < denominator)
    (hdrop : (numerator / denominator).log2 - p.fractionBits = drop) (other : Nat) :
    Nat.dist (p.units (p.assemble drop (roundQuotient numerator (denominator * 2 ^ drop)))
        * denominator) numerator
      ≤ Nat.dist (p.units other * denominator) numerator := by
  have hplace : 0 < denominator * 2 ^ drop := Nat.mul_pos hdenominator (Nat.two_pow_pos drop)
  obtain ⟨multiple, hmultiple, -⟩ := exists_multiple_dist_le hdrop other
  rw [units_assemble_roundQuotient hdrop]
  exact (dist_roundQuotient_le hplace numerator multiple).trans hmultiple

/-- Of two magnitudes that are equally near the even one is taken. -/
theorem even_assemble_of_tie (hfraction : p.fractionBits ≠ 0) (hdenominator : 0 < denominator)
    (hdrop : (numerator / denominator).log2 - p.fractionBits = drop) {other : Nat}
    (hne : other ≠ p.assemble drop (roundQuotient numerator (denominator * 2 ^ drop)))
    (htie : Nat.dist (p.units other * denominator) numerator
      = Nat.dist (p.units (p.assemble drop (roundQuotient numerator (denominator * 2 ^ drop)))
        * denominator) numerator) :
    p.assemble drop (roundQuotient numerator (denominator * 2 ^ drop)) % 2 = 0 := by
  have hplace : 0 < denominator * 2 ^ drop := Nat.mul_pos hdenominator (Nat.two_pow_pos drop)
  have hunits := units_assemble_roundQuotient hdrop
  obtain ⟨multiple, hmultiple, hsame⟩ := exists_multiple_dist_le hdrop other
  have hle := dist_roundQuotient_le hplace numerator multiple
  rw [hunits] at htie
  have hsame := hsame (le_antisymm hmultiple (htie.trans_le hle))
  have hother : multiple ≠ roundQuotient numerator (denominator * 2 ^ drop) := by
    rintro rfl
    rw [← hunits] at hsame
    exact hne (p.units_strictMono.injective (Nat.eq_of_mul_eq_mul_right hdenominator hsame).symm)
  rw [← hsame] at htie
  have heven := even_roundQuotient_of_tie hplace hother htie
  -- The dropped bits add to the exponent field, which does not reach the lowest bit.
  obtain ⟨bits, hbits⟩ := Nat.exists_eq_succ_of_ne_zero hfraction
  rw [assemble, hbits, Nat.pow_succ', Nat.mul_left_comm]
  omega

/-- If a magnitude beyond infinity would be the nearest, infinity is the nearest that there is. -/
theorem isNearestEven_infinity {beyond : Nat} (hdenominator : 0 < denominator)
    (hbeyond : p.infinity < beyond)
    (hnearest : Nat.dist (p.units beyond * denominator) numerator
      ≤ Nat.dist (p.units p.infinity * denominator) numerator) :
    p.IsNearestEven numerator denominator p.infinity := by
  have hscaled {first second : Nat} (h : first < second) :
      p.units first * denominator < p.units second * denominator :=
    Nat.mul_lt_mul_of_pos_right (p.units_strictMono h) hdenominator
  have habove := hscaled hbeyond
  unfold Nat.dist at hnearest
  refine ⟨Nat.le_refl _, fun other hother => ?_, fun other hother hne htie => ?_⟩
  · rcases hother.eq_or_lt with rfl | hlt
    · exact Nat.le_refl _
    · have hbelow := hscaled hlt
      unfold Nat.dist
      omega
  · have hbelow := hscaled (lt_of_le_of_ne hother hne)
    unfold Nat.dist at htie
    omega

/-- Rounding gives the nearest magnitude. -/
theorem isNearestEven_round (hfraction : p.fractionBits ≠ 0) (hdenominator : 0 < denominator)
    (numerator : Nat) :
    p.IsNearestEven numerator denominator (p.round numerator denominator) := by
  obtain ⟨drop, hdrop⟩ : ∃ drop, (numerator / denominator).log2 - p.fractionBits = drop := ⟨_, rfl⟩
  have hnearest := dist_assemble_le hdenominator hdrop
  rw [p.round_eq hdrop]
  by_cases hinfinity :
      p.assemble drop (roundQuotient numerator (denominator * 2 ^ drop)) ≤ p.infinity
  · rw [Nat.min_eq_left hinfinity]
    exact ⟨hinfinity, fun other _ => hnearest other,
      fun other _ hne htie => even_assemble_of_tie hfraction hdenominator hdrop hne htie⟩
  · rw [Nat.min_eq_right (Nat.le_of_not_le hinfinity)]
    exact isNearestEven_infinity hdenominator (Nat.lt_of_not_le hinfinity) (hnearest p.infinity)

end Precision

end M68Fpu
