import M68Fpu.Proofs.Step

/-!
# Resets, and calls in any order

A reset reads two vectors and can be refused either of them (`Machine.Resets`). From outside, a
machine is stepped and reset (`Call`); each call goes on from where the one before has left the
machine, also if that one ended in a fault.
-/

namespace M68Fpu

namespace Machine

variable {β : Type} [Bus β]

/-! ## Resets -/

/-- The processor after a reset that has read both vectors. -/
def resetCpu (cpu : Cpu) (stack program : UInt32) : Cpu :=
  { cpu with
    address := cpu.address.put stackPointer stack
    pc := program
    fp := Bank.fill ⟨0⟩
    fpcr := 0
    fpsr := 0
    fpiar := 0
    stopped := false }

/-- The outcomes of a reset. -/
inductive Resets (machine : Machine β) : Outcome β → Prop
  | completed {stack program : UInt32} (hstack : Bus.read32 machine.bus stackVector = some stack)
      (hprogram : Bus.read32 machine.bus programVector = some program) :
      Resets machine ⟨none, { machine with
        cpu := resetCpu machine.cpu stack program
        events := [.read .data .long stackVector (some stack),
          .read .data .long programVector (some program)] }⟩
  /-- The stack pointer has been loaded by the time that the second vector is refused. -/
  | noProgram {stack : UInt32} (hstack : Bus.read32 machine.bus stackVector = some stack)
      (hprogram : Bus.read32 machine.bus programVector = none) :
      Resets machine ⟨some .busError, { machine with
        cpu := { machine.cpu with address := machine.cpu.address.put stackPointer stack }
        events := [.read .data .long stackVector (some stack),
          .read .data .long programVector none] }⟩
  | noStack (hstack : Bus.read32 machine.bus stackVector = none) :
      Resets machine ⟨some .busError, { machine with
        events := [.read .data .long stackVector none] }⟩

theorem resets_reset (machine : Machine β) : Resets machine machine.reset := by
  cases hstack : Bus.read32 machine.bus stackVector with
  | none =>
    have hreset : machine.reset = ⟨some .busError, _⟩ :=
      Exec.outcome_of_error <| Exec.bind_eq_error_iff.mpr <| .inl <|
        Exec.readLong_eq_error_iff.mpr ⟨hstack, rfl, rfl⟩
    rw [hreset]
    exact .noStack hstack
  | some stack =>
    cases hprogram : Bus.read32 machine.bus programVector with
    | none =>
      have hreset : machine.reset = ⟨some .busError, _⟩ :=
        Exec.outcome_of_error <| Exec.bind_eq_error_iff.mpr <| .inr ⟨stack, _,
          Exec.readLong_eq_ok_iff.mpr ⟨hstack, rfl⟩, Exec.bind_eq_error_iff.mpr <| .inr ⟨(), _, rfl,
            Exec.bind_eq_error_iff.mpr <| .inl <|
              Exec.readLong_eq_error_iff.mpr ⟨hprogram, rfl, rfl⟩⟩⟩
      rw [hreset]
      exact .noProgram hstack hprogram
    | some program =>
      have hreset : machine.reset = ⟨none, _⟩ :=
        Exec.outcome_of_ok <| Exec.bind_eq_ok_iff.mpr ⟨stack, _,
          Exec.readLong_eq_ok_iff.mpr ⟨hstack, rfl⟩, Exec.bind_eq_ok_iff.mpr ⟨(), _, rfl,
            Exec.bind_eq_ok_iff.mpr ⟨program, _,
              Exec.readLong_eq_ok_iff.mpr ⟨hprogram, rfl⟩, rfl⟩⟩⟩
      rw [hreset]
      exact .completed hstack hprogram

theorem bus_reset (machine : Machine β) : machine.reset.machine.bus = machine.bus := by
  have hresets := machine.resets_reset
  generalize machine.reset = outcome at hresets
  cases hresets <;> rfl

theorem reset_of_read {machine : Machine β} {stack program : UInt32}
    (hstack : Bus.read32 machine.bus stackVector = some stack)
    (hprogram : Bus.read32 machine.bus programVector = some program) :
    machine.reset.fault = none ∧ machine.reset.machine.bus = machine.bus ∧
      machine.reset.machine.cpu = resetCpu machine.cpu stack program := by
  have hresets := machine.resets_reset
  generalize machine.reset = outcome at hresets ⊢
  cases hresets with
  | completed hstack' hprogram' =>
    obtain rfl := Option.some.inj (hstack.symm.trans hstack')
    obtain rfl := Option.some.inj (hprogram.symm.trans hprogram')
    exact ⟨rfl, rfl, rfl⟩
  | noProgram _ hprogram' => cases hprogram.symm.trans hprogram'
  | noStack hstack' => cases hstack.symm.trans hstack'

end Machine

/-! ## Calls -/

/-- What can be asked of a machine. -/
inductive Call where
  | step
  | reset
  deriving DecidableEq, Repr

namespace Machine

variable {β : Type} [Bus β]

def call (machine : Machine β) : Call → Outcome β
  | .step => machine.step
  | .reset => machine.reset

/-- The outcomes of calls, one after the other. -/
def outcomes (machine : Machine β) : List Call → List (Outcome β)
  | [] => []
  | call :: rest => machine.call call :: (machine.call call).machine.outcomes rest

/-- The machine after calls. -/
def afterCalls (machine : Machine β) : List Call → Machine β
  | [] => machine
  | call :: rest => (machine.call call).machine.afterCalls rest

end Machine

end M68Fpu
