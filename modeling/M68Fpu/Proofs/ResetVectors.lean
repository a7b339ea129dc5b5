import M68Fpu.Bus.Flat
import M68Fpu.Proofs.Calls

/-!
# How far a reset gets

A reset that reads both vectors sets up the whole processor (`Machine.resetCpu`). A refused vector
ends it where it is (`Machine.ResetByVectors`). The stack pointer is loaded before the second vector
is read and is not put back, so that a reset is not all or nothing
(`Machine.not_resetsAtomically`). Nothing else has changed by then: a stopped processor stays
stopped, and the next reset that completes leaves what it would have left without the first
(`Machine.cpu_reset_retried`).
-/

namespace M68Fpu

namespace Machine

variable {β : Type} [Bus β]

/-! ## By the answers of the bus -/

/-- What a reset of a machine leaves, by what the bus answers for the two vectors. -/
structure ResetByVectors (machine : Machine β) (outcome : Outcome β) : Prop where
  completed : ∀ stack program, Bus.read32 machine.bus stackVector = some stack →
    Bus.read32 machine.bus programVector = some program →
    outcome.fault = none ∧ outcome.machine.cpu = { machine.cpu with
      address := machine.cpu.address.put 7 stack
      pc := program
      fp := Bank.fill ⟨0⟩
      fpcr := 0
      fpsr := 0
      fpiar := 0
      stopped := false }
  noProgram : ∀ stack, Bus.read32 machine.bus stackVector = some stack →
    Bus.read32 machine.bus programVector = none →
    outcome.fault = some .busError ∧
      outcome.machine.cpu = { machine.cpu with address := machine.cpu.address.put 7 stack }
  noStack : Bus.read32 machine.bus stackVector = none →
    outcome.fault = some .busError ∧ outcome.machine.cpu = machine.cpu
  bus_eq : outcome.machine.bus = machine.bus

theorem Resets.byVectors {machine : Machine β} {outcome : Outcome β}
    (h : machine.Resets outcome) : machine.ResetByVectors outcome := by
  -- Each constructor knows the answers, which settle what the vectors are or contradict it.
  cases h with
  | completed hstack hprogram => constructor <;> simp [hstack, hprogram, resetCpu, stackPointer]
  | noProgram hstack hprogram => constructor <;> simp [hstack, hprogram, stackPointer]
  | noStack hstack => constructor <;> simp [hstack]

theorem reset_byVectors (machine : Machine β) : machine.ResetByVectors machine.reset :=
  machine.resets_reset.byVectors

/-! ## Not all or nothing -/

/-- A reset that completes or else leaves the processor as it was. -/
structure ResetsAtomically (machine : Machine β) : Prop where
  completed : ∀ stack program, Bus.read32 machine.bus stackVector = some stack →
    Bus.read32 machine.bus programVector = some program →
    machine.reset.fault = none ∧ machine.reset.machine.cpu = resetCpu machine.cpu stack program
  refused : Bus.read32 machine.bus stackVector = none ∨ Bus.read32 machine.bus programVector = none →
    machine.reset.fault = some .busError ∧ machine.reset.machine.cpu = machine.cpu

/-- A processor on a memory that ends behind the first vector. -/
def onFirstVector : Machine FlatMemory where
  cpu := { address := ⟨#v[0, 0, 0, 0, 0, 0, 0, 0x1000]⟩, pc := 0x400 }
  bus := .ofProgram 4 0 [0x00, 0x00, 0x08, 0x00]

/-- The stack pointer is not put back when the second vector is refused. -/
theorem not_resetsAtomically : ¬ ∀ machine : Machine FlatMemory, machine.ResetsAtomically := by
  intro h
  have hprogram : Bus.read32 onFirstVector.bus programVector = none := by decide +kernel
  have hkept := ((h onFirstVector).refused (.inr hprogram)).2
  have hstack : onFirstVector.reset.machine.cpu.address.get 7 = 0x800 := by decide +kernel
  rw [hkept] at hstack
  exact absurd hstack (by decide +kernel)

/-! ## Trying again -/

theorem resetCpu_put (cpu : Cpu) (before stack program : UInt32) :
    resetCpu { cpu with address := cpu.address.put stackPointer before } stack program
      = resetCpu cpu stack program := by
  simp [resetCpu]

/-- A refused reset is made up for by one that completes, on whatever the bus has become. -/
theorem cpu_reset_retried (machine : Machine β) (bus : β) {stack program : UInt32}
    (hstack : Bus.read32 bus stackVector = some stack)
    (hprogram : Bus.read32 bus programVector = some program) :
    { machine.reset.machine with bus }.reset.machine.cpu
      = { machine with bus }.reset.machine.cpu := by
  have hretried : { machine.reset.machine with bus }.reset.machine.cpu
      = resetCpu machine.reset.machine.cpu stack program := (reset_of_read hstack hprogram).2.2
  have hfirst : { machine with bus }.reset.machine.cpu = resetCpu machine.cpu stack program :=
    (reset_of_read hstack hprogram).2.2
  rw [hretried, hfirst]
  have hresets := machine.resets_reset
  generalize machine.reset = outcome at hresets ⊢
  cases hresets with
  | completed => simp [resetCpu]
  | noProgram => exact resetCpu_put machine.cpu _ stack program
  | noStack => rfl

end Machine

end M68Fpu
