import M68Fpu.Bus.Flat
import M68Fpu.Proofs.Binary.Difference
import M68Fpu.Proofs.Completion
import M68Fpu.Proofs.ConditionCodes

/-!
# A comparison and the branch behind it

A comparison subtracts its source from a register and reports the difference; a conditional branch
then tests the condition codes. Together they decide how the two operands are ordered as numbers:
each predicate asks for the order that it is named after (`Condition.Asks`), and operands without an
order answer no to all of them, so that the negated predicates hold.

Operands without an order are NaNs and also two infinities of the same sign, whose difference is a
NaN (`Double.Unordered`). In this the comparison departs from the order of numbers, in which an
infinity is equal to itself.
-/

namespace M68Fpu

/-! ## What predicates ask for -/

/-- What a predicate asks of the order of two operands. -/
def Condition.Asks (condition : Condition) (less equal greater : Prop) : Prop :=
  match condition with
  | never => False
  | always => True
  | .equal => equal
  | notEqual => ¬ equal
  | .greater => greater
  | greaterOrEqual => greater ∨ equal
  | .less => less
  | lessOrEqual => less ∨ equal
  | notGreater => ¬ greater
  | notGreaterOrEqual => ¬ (greater ∨ equal)
  | notLess => ¬ less
  | notLessOrEqual => ¬ (less ∨ equal)

namespace Double

/-- Whether a comparison finds no order between two operands. -/
def Unordered (x y : Double) : Prop := x.value = none ∨ y.value = none ∨ x.SameInfinity y

variable {x y : Double}

/-! ## The order is strict -/

theorem Equals.not_less (h : x.Equals y) : ¬ x.Less y := by
  obtain ⟨a, hx, hy⟩ := h
  rintro ⟨b, c, hb, hc, hlt⟩
  obtain rfl := Option.some.inj (hx.symm.trans hb)
  obtain rfl := Option.some.inj (hy.symm.trans hc)
  exact lt_irrefl _ hlt

theorem Equals.symm (h : x.Equals y) : y.Equals x := by
  obtain ⟨a, hx, hy⟩ := h
  exact ⟨a, hy, hx⟩

theorem Less.not_less (h : x.Less y) : ¬ y.Less x := by
  obtain ⟨a, b, hx, hy, hlt⟩ := h
  rintro ⟨b', a', hy', hx', hlt'⟩
  obtain rfl := Option.some.inj (hx.symm.trans hx')
  obtain rfl := Option.some.inj (hy.symm.trans hy')
  exact lt_asymm hlt hlt'

theorem Less.not_unordered (h : x.Less y) : ¬ x.Unordered y := by
  obtain ⟨a, b, hx, hy, hlt⟩ := h
  rintro (hnone | hnone | ⟨hbot, hbot'⟩ | ⟨htop, htop'⟩)
  · rw [hx] at hnone; cases hnone
  · rw [hy] at hnone; cases hnone
  · rw [hx] at hbot; rw [hy] at hbot'
    rw [Option.some.inj hbot, Option.some.inj hbot'] at hlt
    exact lt_irrefl _ hlt
  · rw [hx] at htop; rw [hy] at htop'
    rw [Option.some.inj htop, Option.some.inj htop'] at hlt
    exact lt_irrefl _ hlt

theorem Unordered.symm (h : x.Unordered y) : y.Unordered x := by
  rcases h with hx | hy | ⟨hx, hy⟩ | ⟨hx, hy⟩
  · exact .inr (.inl hx)
  · exact .inl hy
  · exact .inr (.inr (.inl ⟨hy, hx⟩))
  · exact .inr (.inr (.inr ⟨hy, hx⟩))

theorem Equals.not_unordered (h : x.Equals y) (hinfinite : ¬ x.SameInfinity y) :
    ¬ x.Unordered y := by
  obtain ⟨a, hx, hy⟩ := h
  rintro (hnone | hnone | hsame)
  · rw [hx] at hnone; cases hnone
  · rw [hy] at hnone; cases hnone
  · exact hinfinite hsame

theorem Less.not_equals (h : x.Less y) : ¬ x.Equals y := fun hequals => hequals.not_less h

/-! ## Reported differences -/

theorem magnitude_ne_zero_of_isNaN (h : x.isNaN = true) : x.magnitude ≠ 0 := by
  unfold isNaN at h
  rw [decide_eq_true_eq] at h
  exact Nat.ne_of_gt (Nat.lt_of_le_of_lt (Nat.zero_le _) h)

/-- A predicate holds of a reported difference if the operands are ordered as it asks. The cases are
the four outcomes of a comparison. -/
theorem holds_of_compared {difference : Double} (h : Compared x y difference)
    (condition : Condition) (status : UInt32) :
    (¬ x.Unordered y → (condition.holds (withConditionCodes status difference) = true ↔
      condition.Asks (x.Less y) (x.Equals y) (y.Less x))) ∧
    (x.Unordered y → (condition.holds (withConditionCodes status difference) = true ↔
      condition.Asks False False False)) := by
  unfold Condition.holds Condition.Asks
  simp only [isSet_withConditionCodes, shows]
  cases h with
  | unordered hnan h =>
    -- The zero flag is read before the NaN flag by some predicates, and a NaN is never zero.
    have hzero : (difference.magnitude == 0) = false :=
      beq_eq_false_iff_ne.mpr (magnitude_ne_zero_of_isNaN hnan)
    refine ⟨fun hordered => absurd h hordered, fun _ => ?_⟩
    cases condition <;> simp [hnan, hzero]
  | equal hnan hzero h hinfinite =>
    have hless := h.not_less
    have hgreater := h.symm.not_less
    refine ⟨fun _ => ?_, fun hunordered => absurd hunordered (h.not_unordered hinfinite)⟩
    cases condition <;> simp [hnan, hzero, h, hless, hgreater]
  | less hnan hzero hnegative h =>
    have hequal := h.not_equals
    have hgreater := h.not_less
    refine ⟨fun _ => ?_, fun hunordered => absurd hunordered h.not_unordered⟩
    cases condition <;> simp [hnan, hzero, hnegative, h, hequal, hgreater]
  | greater hnan hzero hnegative h =>
    have hequal : ¬ x.Equals y := fun hequals => hequals.symm.not_less h
    have hless := h.not_less
    refine ⟨fun _ => ?_, fun hunordered => absurd hunordered.symm h.not_unordered⟩
    cases condition <;> simp [hnan, hzero, hnegative, h, hequal, hless]

end Double

/-! ## Execution -/

namespace Exec

variable {β : Type} [Bus β] {machine last : Machine β}

/-- A comparison reports the difference, charges its cycles and does nothing else. -/
theorem arithmetic_cmp {source : Source} {target : Fin 8} {value : Double}
    (h : readSource source machine = .ok value last) :
    arithmetic .cmp source target machine = .ok () (last.mapCpu fun cpu =>
      { cpu with
        fpsr := withConditionCodes cpu.fpsr ((machine.cpu.fp.get target).sub value)
        cycles := cpu.cycles + Opmode.cmp.cycles }) := by
  -- The target is read behind the source, which has left it as it was.
  have hfp : last.cpu.fp = machine.cpu.fp := by
    obtain ⟨-, hcpu⟩ := readSource_frame h
    rw [hcpu]
  unfold arithmetic
  rw [bind_of_ok h, ← hfp]
  rfl

theorem branch_of_holds {condition : Condition} (target : UInt32)
    (h : condition.holds machine.cpu.fpsr = true) :
    branch condition target machine = .ok ()
      { machine.record .branch with
        cpu := { machine.cpu with pc := target, cycles := machine.cpu.cycles + branchCycles }
        bus := Bus.traceBranch machine.bus } := by
  have hcpu : (cpu : Exec β Cpu) machine = .ok machine.cpu machine := rfl
  unfold branch
  rw [bind_of_ok hcpu]
  simp only [h, if_true]
  rfl

theorem branch_of_not_holds {condition : Condition} (target : UInt32)
    (h : ¬ condition.holds machine.cpu.fpsr = true) :
    branch condition target machine = .ok ()
      (machine.mapCpu fun cpu => { cpu with cycles := cpu.cycles + branchCycles }) := by
  have hcpu : (cpu : Exec β Cpu) machine = .ok machine.cpu machine := rfl
  unfold branch
  rw [bind_of_ok hcpu]
  simp only [h]
  rfl

end Exec

/-! ## Steps -/

namespace Machine

variable {β : Type} [Bus β] {machine : Machine β}

/-- How a branch went: whether it was announced, and where it led. -/
structure Branched (after : Machine β) (taken : Prop) (target next : UInt32) : Prop where
  announced_iff : .branch ∈ after.events ↔ taken
  pc_of_taken : taken → after.cpu.pc = target
  pc_of_not_taken : ¬ taken → after.cpu.pc = next

/-- A step that executes a branch is decided by the status register. -/
theorem branched_step {condition : Condition} {target : UInt32} {stream : InstructionStream}
    (hfetch : machine.fetch = .ok (.branch condition target) stream) :
    machine.step.fault = none ∧
      machine.step.machine.cpu.fp = machine.cpu.fp ∧
      Branched machine.step.machine (condition.holds machine.cpu.fpsr = true) target stream.pc := by
  -- The fetch itself announces nothing.
  have hreads : .branch ∉ stream.events := by
    intro hbranch
    obtain ⟨_, _, _, heq⟩ := (covers_of_fetch hfetch).eq_read hbranch
    cases heq
  by_cases h : condition.holds machine.cpu.fpsr = true
  · have hexecute : Exec.execute (.branch condition target) (machine.withStream stream) = _ :=
      Exec.branch_of_holds target h
    rw [step_of_execute_ok hfetch hexecute]
    refine ⟨rfl, rfl, iff_of_true ?_ h, fun _ => rfl, fun hnot => absurd h hnot⟩
    exact List.mem_append_right _ (List.mem_singleton.mpr rfl)
  · have hexecute : Exec.execute (.branch condition target) (machine.withStream stream) = _ :=
      Exec.branch_of_not_holds target h
    rw [step_of_execute_ok hfetch hexecute]
    exact ⟨rfl, rfl, iff_of_false hreads h, fun htaken => absurd htaken h, fun _ => rfl⟩

/-- The machine after a comparison: the condition codes are those of the difference, and neither the
operands nor memory have changed. -/
theorem compared_step {source : Source} {target : Fin 8} {stream : InstructionStream}
    {value : Double} {middle : Machine β}
    (hfetch : machine.fetch = .ok (.arithmetic .cmp source target) stream)
    (hsource : Exec.readSource source (machine.withStream stream) = .ok value middle) :
    machine.step.fault = none ∧
      machine.step.machine.bus = machine.bus ∧
      machine.step.machine.cpu.fp = machine.cpu.fp ∧
      machine.step.machine.cpu.data = machine.cpu.data ∧
      machine.step.machine.cpu.fpsr
        = withConditionCodes machine.cpu.fpsr ((machine.cpu.fp.get target).sub value) := by
  obtain ⟨hbus, hcpu⟩ := Exec.readSource_frame hsource
  have hexecute : Exec.execute (.arithmetic .cmp source target) (machine.withStream stream) = _ :=
    Exec.arithmetic_cmp hsource
  rw [step_of_execute_ok hfetch hexecute]
  have hfp : middle.cpu.fp = machine.cpu.fp := by rw [hcpu]; rfl
  have hdata : middle.cpu.data = machine.cpu.data := by rw [hcpu]; rfl
  have hfpsr : middle.cpu.fpsr = machine.cpu.fpsr := by rw [hcpu]; rfl
  refine ⟨rfl, hbus, hfp, hdata, ?_⟩
  show withConditionCodes middle.cpu.fpsr _ = _
  rw [hfpsr]
  rfl

/-- A comparison and a branch decide how the operands are ordered, and leave both as they were. -/
theorem branched_compare {source : Source} {register : Fin 8} {condition : Condition}
    {target : UInt32} {stream behind : InstructionStream} {value : Double} {middle : Machine β}
    (hcompare : machine.fetch = .ok (.arithmetic .cmp source register) stream)
    (hsource : Exec.readSource source (machine.withStream stream) = .ok value middle)
    (hbranch : machine.step.machine.fetch = .ok (.branch condition target) behind) :
    machine.step.fault = none ∧
      machine.step.machine.bus = machine.bus ∧
      machine.step.machine.cpu.fp = machine.cpu.fp ∧
      machine.step.machine.cpu.data = machine.cpu.data ∧
      machine.step.machine.step.fault = none ∧
      machine.step.machine.step.machine.cpu.fp = machine.cpu.fp ∧
      (¬ (machine.cpu.fp.get register).Unordered value →
        Branched machine.step.machine.step.machine
          (condition.Asks ((machine.cpu.fp.get register).Less value)
            ((machine.cpu.fp.get register).Equals value)
            (value.Less (machine.cpu.fp.get register)))
          target behind.pc) ∧
      ((machine.cpu.fp.get register).Unordered value →
        Branched machine.step.machine.step.machine (condition.Asks False False False)
          target behind.pc) := by
  obtain ⟨hfault, hbus, hfp, hdata, hfpsr⟩ := compared_step hcompare hsource
  obtain ⟨hfault', hfp', hbranched⟩ := branched_step hbranch
  obtain ⟨hordered, hunordered⟩ := Double.holds_of_compared
    (Double.compared_sub (machine.cpu.fp.get register) value) condition machine.cpu.fpsr
  -- The branch tests the status that the comparison has left.
  rw [hfpsr] at hbranched
  refine ⟨hfault, hbus, hfp, hdata, hfault', hfp'.trans hfp, fun h => ?_, fun h => ?_⟩
  · rwa [propext (hordered h)] at hbranched
  · rwa [propext (hunordered h)] at hbranched

/-- A machine about to compare FP0 with FP1 and to branch on a condition. -/
def aboutToCompare (x y : Double) (condition : UInt8) : Machine FlatMemory where
  cpu := { pc := 0x400, fp := ((Bank.fill ⟨0⟩).put 0 x).put 1 y }
  bus := .ofProgram 0x10000 0x400 [0xF2, 0x00, 0x04, 0x38, 0xF2, 0x80 + condition, 0x00, 0x06]

/-- Zero is less than the least subnormal number: no difference is too small to be seen. -/
theorem branched_compare_subnormal :
    .branch ∈ (aboutToCompare ⟨0⟩ ⟨1⟩ 0x14).step.machine.step.machine.events := by
  obtain ⟨stream, hcompare⟩ := fetched_eq_some_iff.mp
    (show (aboutToCompare ⟨0⟩ ⟨1⟩ 0x14).fetched = some (.arithmetic .cmp (.register 1) 0) by
      decide +kernel)
  obtain ⟨behind, hbranch⟩ := fetched_eq_some_iff.mp
    (show (aboutToCompare ⟨0⟩ ⟨1⟩ 0x14).step.machine.fetched = some (.branch .less 0x40C) by
      decide +kernel)
  have hzero : (⟨0⟩ : Double).datum = .finite false 0 := by decide
  have hone : (⟨1⟩ : Double).datum = .finite false 1 := by decide
  have hless : (⟨0⟩ : Double).Less ⟨1⟩ := Double.less_of_finite hzero hone (by decide)
  obtain ⟨-, -, -, -, -, -, hordered, -⟩ := branched_compare hcompare rfl hbranch
  exact (hordered hless.not_unordered).announced_iff.mpr hless

/-- The order of numbers alone does not decide the branch: an infinity is not found equal to
itself. -/
theorem not_branched_order :
    ¬ ∀ (machine : Machine FlatMemory) (source : Source) (register : Fin 8) (condition : Condition)
      (target : UInt32) (stream behind : InstructionStream) (value : Double)
      (middle : Machine FlatMemory),
      machine.fetch = .ok (.arithmetic .cmp source register) stream →
      Exec.readSource source (machine.withStream stream) = .ok value middle →
      machine.step.machine.fetch = .ok (.branch condition target) behind →
      (machine.cpu.fp.get register).value ≠ none → value.value ≠ none →
      (.branch ∈ machine.step.machine.step.machine.events ↔
        condition.Asks ((machine.cpu.fp.get register).Less value)
          ((machine.cpu.fp.get register).Equals value)
          (value.Less (machine.cpu.fp.get register))) := by
  intro h
  have hdatum : (Double.infinity false).datum = .infinite false := by decide
  have hvalue : (Double.infinity false).value = some ⊤ := Double.value_of_infinite hdatum
  obtain ⟨stream, hcompare⟩ := fetched_eq_some_iff.mp
    (show (aboutToCompare (.infinity false) (.infinity false) 1).fetched
        = some (.arithmetic .cmp (.register 1) 0) by decide +kernel)
  obtain ⟨behind, hbranch⟩ := fetched_eq_some_iff.mp
    (show (aboutToCompare (.infinity false) (.infinity false) 1).step.machine.fetched
        = some (.branch .equal 0x40C) by decide +kernel)
  have hnot : .branch ∉
      (aboutToCompare (.infinity false) (.infinity false) 1).step.machine.step.machine.events := by
    decide +kernel
  have hnumber : (Double.infinity false).value ≠ none := by rw [hvalue]; nofun
  exact hnot ((h _ _ _ _ _ _ _ _ _ hcompare rfl hbranch hnumber hnumber).mpr ⟨⊤, hvalue, hvalue⟩)

end Machine

end M68Fpu
