import M68Fpu.Bus.Flat
import M68Fpu.Proofs.Binary.IntegerConversion
import M68Fpu.Proofs.ConditionalBranch
import M68Fpu.Proofs.OperandCommand

/-!
# A test and the branch behind it

A test reports its source as it is. To the branches this is a comparison with zero that has been
done already (`Double.compared_zero`): the condition codes of a number show how it is ordered against
zero, although the negative flag is no more than the sign bit, which negative zero and negative NaNs
have too.

So a test and a conditional branch decide whether the source is below zero, zero or above zero, and
without a number it is neither (`Machine.branched_test`). The source may be a register or an operand
in any format.
-/

namespace M68Fpu

/-! ## Signs of numbers -/

namespace ExtendedRat

/-- Whether there is a number and it is below zero. -/
def IsNegative (number : Option ExtendedRat) : Prop := ∃ v, number = some v ∧ v < ofRat 0

def IsZero (number : Option ExtendedRat) : Prop := number = some (ofRat 0)

def IsPositive (number : Option ExtendedRat) : Prop := ∃ v, number = some v ∧ ofRat 0 < v

end ExtendedRat

namespace Double

open ExtendedRat (IsNegative IsZero IsPositive)

variable {x : Double} {negative : Bool} {units : Nat}

theorem datum_zero : (zero false).datum = .finite false 0 := by decide

theorem value_zero : (zero false).value = some (.ofRat 0) := by
  rw [value_of_finite datum_zero, ofUnits, signedUnits]
  simp

theorem units_of_finite (h : x.datum = .finite negative units) :
    Precision.double.units x.magnitude = units := by
  unfold datum at h
  split at h
  · exact (Datum.finite.inj h).2
  · split at h <;> cases h

theorem magnitude_eq_zero_iff (h : x.datum = .finite negative units) :
    x.magnitude = 0 ↔ units = 0 := by
  have hzero : Precision.double.units 0 = 0 := by decide
  rw [← units_of_finite h, ← Precision.double.units_strictMono.injective.eq_iff, hzero]

theorem magnitude_of_infinite (h : x.datum = .infinite negative) : x.magnitude ≠ 0 := by
  unfold datum at h
  split at h
  · cases h
  · split at h
    · next heq =>
      rw [heq]
      decide
    · cases h

theorem isNaN_of_datum (h : x.datum ≠ .nan) : x.isNaN = false := by
  rwa [Ne, datum_eq_nan_iff, Bool.not_eq_true] at h

/-- A number shows by itself how it is ordered against zero. -/
theorem compared_zero (x : Double) : Compared x (zero false) x := by
  cases hx : x.datum with
  | nan => exact .unordered ((datum_eq_nan_iff x).mp hx) (.inl (value_of_nan hx))
  | finite negative units =>
    have hnan : x.isNaN = false := isNaN_of_datum (by simp [hx])
    by_cases hunits : units = 0
    · -- Both zeros are equal to zero, whatever their sign.
      have hequals : x.Equals (zero false) := by
        refine ⟨.ofRat 0, ?_, value_zero⟩
        rw [value_of_finite hx, hunits, ofUnits, signedUnits]
        simp
      exact .equal hnan ((magnitude_eq_zero_iff hx).mpr hunits) hequals
        (not_sameInfinity_of_finite hx)
    · have hmagnitude : x.magnitude ≠ 0 := (magnitude_eq_zero_iff hx).not.mpr hunits
      have hsign := isNegative_of_finite hx
      cases negative with
      | true =>
        refine .less hnan hmagnitude hsign (less_of_finite hx datum_zero ?_)
        simp only [signedUnits, if_true, Bool.false_eq_true, if_false]
        omega
      | false =>
        refine .greater hnan hmagnitude hsign (less_of_finite datum_zero hx ?_)
        simp only [signedUnits, Bool.false_eq_true, if_false]
        omega
  | infinite negative =>
    have hnan : x.isNaN = false := isNaN_of_datum (by simp [hx])
    have hmagnitude := magnitude_of_infinite hx
    have hsign := isNegative_of_infinite hx
    have hvalue := value_of_infinite hx
    cases negative with
    | true =>
      exact .less hnan hmagnitude hsign
        ⟨_, _, hvalue, value_zero, bot_lt_iff_ne_bot.mpr (ExtendedRat.ofRat_ne_bot 0)⟩
    | false =>
      exact .greater hnan hmagnitude hsign
        ⟨_, _, value_zero, hvalue, lt_top_iff_ne_top.mpr (ExtendedRat.ofRat_ne_top 0)⟩

/-! ## The order against zero -/

theorem less_zero_iff : x.Less (zero false) ↔ IsNegative x.value := by
  constructor
  · rintro ⟨a, b, hx, hzero, hlt⟩
    obtain rfl := Option.some.inj (value_zero.symm.trans hzero)
    exact ⟨a, hx, hlt⟩
  · rintro ⟨a, hx, hlt⟩
    exact ⟨a, _, hx, value_zero, hlt⟩

theorem equals_zero_iff : x.Equals (zero false) ↔ IsZero x.value := by
  constructor
  · rintro ⟨a, hx, hzero⟩
    obtain rfl := Option.some.inj (value_zero.symm.trans hzero)
    exact hx
  · intro hx
    exact ⟨_, hx, value_zero⟩

theorem zero_less_iff : (zero false).Less x ↔ IsPositive x.value := by
  constructor
  · rintro ⟨b, a, hzero, hx, hlt⟩
    obtain rfl := Option.some.inj (value_zero.symm.trans hzero)
    exact ⟨a, hx, hlt⟩
  · rintro ⟨a, hx, hlt⟩
    exact ⟨_, a, value_zero, hx, hlt⟩

theorem unordered_zero_iff : x.Unordered (zero false) ↔ x.value = none := by
  constructor
  · rintro (hx | hzero | ⟨-, hzero⟩ | ⟨-, hzero⟩)
    · exact hx
    · cases value_zero.symm.trans hzero
    · exact absurd (Option.some.inj (value_zero.symm.trans hzero)) (ExtendedRat.ofRat_ne_bot 0)
    · exact absurd (Option.some.inj (value_zero.symm.trans hzero)) (ExtendedRat.ofRat_ne_top 0)
  · exact .inl

/-- A predicate holds of a number that has been reported if its sign is what the predicate asks
for. -/
theorem holds_withConditionCodes (x : Double) (condition : Condition) (status : UInt32) :
    condition.holds (withConditionCodes status x) = true ↔
      condition.Asks (IsNegative x.value) (IsZero x.value) (IsPositive x.value) := by
  obtain ⟨hordered, hunordered⟩ := holds_of_compared x.compared_zero condition status
  by_cases hvalue : x.value = none
  · rw [hunordered (unordered_zero_iff.mpr hvalue), hvalue]
    simp [IsNegative, IsZero, IsPositive]
  · rw [hordered (unordered_zero_iff.not.mpr hvalue), less_zero_iff, equals_zero_iff,
      zero_less_iff]

end Double

/-! ## Steps -/

namespace Machine

open ExtendedRat (IsNegative IsZero IsPositive)

variable {β : Type} [Bus β] {machine : Machine β} {number : Option ExtendedRat}

/-- Whether a test of a number stands at the program counter: of a register, or of an operand that
the bus has. -/
inductive Tests (machine : Machine β) : Option ExtendedRat → Prop
  | register {opcode : UInt16} {source n : Fin 8}
      (h : machine.HasCommand opcode (.arithmetic (.register source) n Opmode.tst.code)) :
      Tests machine (machine.cpu.fp.get source).value
  | operand {opcode : UInt16} {format : LoadFormat} {n : Fin 8} {addressing : Addressing}
      {operand : UInt64} (h : machine.HasOperation opcode .tst format n addressing)
      (hoperand : machine.operand format.width addressing = some operand) :
      Tests machine (format.number operand)

/-- The step of a test reports its source and changes no register of the FPU. -/
theorem tested_step (h : machine.Tests number) :
    machine.step.fault = none ∧ machine.step.machine.cpu.fp = machine.cpu.fp ∧
      ∃ x : Double, x.value = number ∧
        machine.step.machine.cpu.fpsr = withConditionCodes machine.cpu.fpsr x := by
  cases h with
  | @register opcode source n h =>
    obtain ⟨stream, -, -, hfetch⟩ := fetch_of_hasCommand h
    have hsource : (Source.register source).value (machine.withStream stream).bus
        (machine.withStream stream).cpu = some (machine.cpu.fp.get source) := rfl
    obtain ⟨last, hexecute, -, hcpu⟩ := Exec.execute_arithmetic_of_value hsource
    have hfetch : machine.fetch = .ok (.arithmetic .tst (.register source) n) stream := hfetch
    rw [step_of_execute_ok hfetch hexecute]
    refine ⟨rfl, ?_, _, rfl, ?_⟩ <;> rw [hcpu] <;> rfl
  | @operand opcode format n addressing operand h hoperand =>
    obtain ⟨hfault, -, hcpu⟩ := operates_of_operand h hoperand
    refine ⟨hfault, ?_, _, format.value_value operand, ?_⟩ <;> rw [hcpu] <;> rfl

/-- A test and a branch decide the sign of the number, and leave the registers of the FPU as they
were. -/
theorem branched_test {form : BranchForm} {opcode : UInt16} {condition : Condition}
    {displacement : Int} (htest : machine.Tests number)
    (hbranch : machine.step.machine.HasBranch form opcode condition displacement) :
    machine.step.fault = none ∧ machine.step.machine.step.fault = none ∧
      machine.step.machine.step.machine.cpu.fp = machine.cpu.fp ∧
      Branched machine.step.machine.step.machine
        (condition.Asks (IsNegative number) (IsZero number) (IsPositive number))
        (machine.step.machine.branchTarget displacement)
        (machine.step.machine.cpu.pc + UInt32.ofNat form.length) := by
  obtain ⟨hfault, hfp, x, rfl, hfpsr⟩ := tested_step htest
  obtain ⟨stream, hfetch, hpc, -⟩ := fetch_of_hasBranch hbranch
  obtain ⟨hfault', hfp', hbranched⟩ := branched_step hfetch
  rw [hfpsr, propext (x.holds_withConditionCodes condition machine.cpu.fpsr), hpc] at hbranched
  exact ⟨hfault, hfault', hfp'.trans hfp, hbranched⟩

/-- A machine about to test the negative NaN in D0 and to branch if it is less. -/
def aboutToTest : Machine FlatMemory where
  cpu := { pc := 0x400, data := Bank.fill 0xFFC00000 }
  bus := .ofProgram 0x10000 0x400 [0xF2, 0x00, 0x44, 0x3A, 0xF2, 0x94, 0x00, 0x06]

/-- The negative flag is set, but the NaN is not less than zero. -/
theorem branched_test_negative_nan :
    StatusFlag.negative.isSet aboutToTest.step.machine.cpu.fpsr = true ∧
      .branch ∉ aboutToTest.step.machine.step.machine.events := by
  have hcommand : aboutToTest.HasCommand 0xF200
      (.arithmetic (.memory LoadFormat.single.format) 0 Opmode.tst.code) := by
    constructor <;> decide +kernel
  have haddressed : aboutToTest.HasAddressing 0xF200 ⟨.long, .read⟩
      (.dataRegister 0 aboutToTest.cpu.address) :=
    hasAddressing_dataRegister (by decide) (by decide)
  have htest : aboutToTest.Tests (LoadFormat.single.number 0xFFC00000) :=
    .operand ⟨hcommand, haddressed⟩ (by decide +kernel)
  have hbranch : aboutToTest.step.machine.HasBranch .word 0xF294 .less 6 := by
    constructor <;> decide +kernel
  have hnan : LoadFormat.single.number 0xFFC00000 = none :=
    Single.value_of_infinity_lt (by decide)
  obtain ⟨-, -, -, hbranched⟩ := branched_test htest hbranch
  refine ⟨by decide +kernel, fun hmem => ?_⟩
  obtain ⟨v, hv, -⟩ := hbranched.announced_iff.mp hmem
  rw [hnan] at hv
  cases hv

end Machine

end M68Fpu
