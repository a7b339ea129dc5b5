import M68Fpu.Condition

/-!
# Condition codes read back

A status word whose condition codes have been replaced shows exactly the four properties of the
double that they describe, and keeps every other bit. No double has two of the properties but the
sign, so the predicates behave as on numbers; a status word from elsewhere need not be like that
(`ConsistentStatus`).
-/

namespace M68Fpu

/-- Whether a double has the property that a flag stands for. -/
def Double.shows (x : Double) : StatusFlag → Bool
  | .nan => x.isNaN
  | .infinity => x.magnitude == Precision.double.infinity
  | .zero => x.magnitude == 0
  | .negative => x.isNegative

/-- None of the bits that are kept is a condition code. -/
theorem StatusFlag.kept_and_mask (flag : StatusFlag) (status : UInt32) :
    status &&& ~~~conditionMask &&& flag.mask = 0 := by
  have hmask : ~~~conditionMask &&& flag.mask = 0 := by cases flag <;> decide
  rw [UInt32.and_assoc, hmask, UInt32.and_zero]

theorem or_and_distrib (first second mask : UInt32) :
    (first ||| second) &&& mask = (first &&& mask) ||| (second &&& mask) :=
  UInt32.toBitVec_inj.mp BitVec.and_or_distrib_right

/-- Each flag of the codes is that of its own property. -/
theorem Double.conditionCodes_and_mask (x : Double) (flag : StatusFlag) :
    x.conditionCodes &&& flag.mask = flag.maskIf (x.shows flag) := by
  unfold conditionCodes shows
  generalize x.isNegative = negative
  generalize (x.magnitude == 0) = zero
  generalize (x.magnitude == Precision.double.infinity) = infinite
  generalize x.isNaN = nan
  -- Four independent properties: a finite table for each flag.
  revert negative zero infinite nan
  cases flag <;> decide

/-- A flag that was reported is set exactly if the double has its property. -/
theorem isSet_withConditionCodes (flag : StatusFlag) (status : UInt32) (x : Double) :
    flag.isSet (withConditionCodes status x) = x.shows flag := by
  have hflag : withConditionCodes status x &&& flag.mask = flag.maskIf (x.shows flag) := by
    unfold withConditionCodes
    rw [or_and_distrib, flag.kept_and_mask, UInt32.zero_or, x.conditionCodes_and_mask]
  unfold StatusFlag.isSet
  rw [hflag]
  cases x.shows flag <;> cases flag <;> rfl

/-! ## The two halves of a status word -/

/-- The codes of a double are condition codes and nothing else. -/
theorem Double.conditionCodes_and_conditionMask (x : Double) :
    x.conditionCodes &&& conditionMask = x.conditionCodes := by
  unfold conditionCodes
  generalize x.isNegative = negative
  generalize (x.magnitude == 0) = zero
  generalize (x.magnitude == Precision.double.infinity) = infinite
  generalize x.isNaN = nan
  revert negative zero infinite nan
  decide

theorem and_not_conditionMask_and_conditionMask (status : UInt32) :
    status &&& ~~~conditionMask &&& conditionMask = 0 := by
  rw [UInt32.and_assoc, show ~~~conditionMask &&& conditionMask = 0 from rfl, UInt32.and_zero]

/-- A report replaces all condition codes. -/
theorem withConditionCodes_and_conditionMask (status : UInt32) (x : Double) :
    withConditionCodes status x &&& conditionMask = x.conditionCodes := by
  unfold withConditionCodes
  rw [or_and_distrib, and_not_conditionMask_and_conditionMask, UInt32.zero_or,
    x.conditionCodes_and_conditionMask]

/-- A report keeps the other bits of the status. -/
theorem withConditionCodes_and_not_conditionMask (status : UInt32) (x : Double) :
    withConditionCodes status x &&& ~~~conditionMask = status &&& ~~~conditionMask := by
  have hcodes : x.conditionCodes &&& ~~~conditionMask = 0 := by
    rw [← x.conditionCodes_and_conditionMask, UInt32.and_assoc,
      show conditionMask &&& ~~~conditionMask = 0 from rfl, UInt32.and_zero]
  unfold withConditionCodes
  rw [or_and_distrib, hcodes, UInt32.or_zero, UInt32.and_assoc, UInt32.and_self]

/-! ## Consistent status words -/

/-- The predicate that is meant to hold exactly if this one does not. -/
def Condition.negated : Condition → Condition
  | never => always
  | equal => notEqual
  | notEqual => equal
  | always => never
  | greater => notGreater
  | greaterOrEqual => notGreaterOrEqual
  | less => notLess
  | lessOrEqual => notLessOrEqual
  | notLessOrEqual => lessOrEqual
  | notLess => less
  | notGreaterOrEqual => greaterOrEqual
  | notGreater => greater

/-- The flags describe some number, or none: of zero, infinity and NaN one at most. -/
structure ConsistentStatus (status : UInt32) : Prop where
  eq_of_isSet : ∀ first second : StatusFlag, first ≠ .negative → second ≠ .negative →
    first.isSet status = true → second.isSet status = true → first = second
  holds_negated : ∀ condition : Condition, condition.negated.holds status = !condition.holds status

/-- The predicates of a pair exclude each other wherever no number is both zero and NaN. -/
theorem Condition.holds_negated_of_not_both {status : UInt32}
    (h : StatusFlag.zero.isSet status = true → StatusFlag.nan.isSet status = false)
    (condition : Condition) : condition.negated.holds status = !condition.holds status := by
  unfold holds
  generalize StatusFlag.zero.isSet status = zero at h ⊢
  generalize StatusFlag.nan.isSet status = nan at h ⊢
  generalize StatusFlag.negative.isSet status = negative
  revert zero nan negative
  cases condition <;> decide

theorem consistentStatus_of_unique {status : UInt32}
    (h : ∀ first second : StatusFlag, first ≠ .negative → second ≠ .negative →
      first.isSet status = true → second.isSet status = true → first = second) :
    ConsistentStatus status where
  eq_of_isSet := h
  holds_negated := Condition.holds_negated_of_not_both fun hzero =>
    Bool.eq_false_iff.mpr fun hnan =>
      StatusFlag.noConfusion (h .zero .nan (by decide) (by decide) hzero hnan)

theorem consistentStatus_zero : ConsistentStatus 0 :=
  consistentStatus_of_unique fun first _ _ _ hfirst => by
    cases first <;> cases hfirst

/-- A double is zero, infinite or a NaN by its magnitude, so it is one of these at most. -/
theorem Double.eq_of_shows {x : Double} {first second : StatusFlag} (hfirst : first ≠ .negative)
    (hsecond : second ≠ .negative) (h : x.shows first = true) (h' : x.shows second = true) :
    first = second := by
  have hinfinity : 0 < Precision.double.infinity := by decide
  unfold shows isNaN at h h'
  cases first <;> cases second <;> simp only [beq_iff_eq, decide_eq_true_eq] at h h' <;>
    first
    | rfl
    | contradiction
    | omega

/-- Whatever a status word was before, a report makes it consistent. -/
theorem consistentStatus_withConditionCodes (status : UInt32) (x : Double) :
    ConsistentStatus (withConditionCodes status x) :=
  consistentStatus_of_unique fun first second hfirst hsecond h h' => by
    rw [isSet_withConditionCodes] at h h'
    exact x.eq_of_shows hfirst hsecond h h'

end M68Fpu
