import M68Fpu.Machine.Step
import M68Fpu.Proofs.Execution
import M68Fpu.Proofs.InstructionStream

/-!
# The three ways a step can end

A step is rejected or refused while its instruction is fetched, completes, or is refused an operand
(`Machine.Steps`). In the first case the bus is as it was before, and the registers differ in the
program counter and the instruction register alone; only the last two execute anything.
-/

namespace M68Fpu

namespace Machine

open InstructionStream (Advances Covers)

variable {β : Type} [Bus β] {machine last : Machine β} {instruction : Instruction}

/-- The instruction at the program counter, and the stream behind it. -/
def fetch (machine : Machine β) : EStateM.Result Fault InstructionStream Instruction :=
  Fetch.instruction machine.bus (machine.stream machine.cpu.pc)

/-- The machine, stopped. -/
def stop (machine : Machine β) : Machine β :=
  machine.mapCpu fun cpu => { cpu with stopped := true }

/-- The instruction that a step fetches, if it gets that far. -/
def fetched (machine : Machine β) : Option Instruction :=
  match machine.fetch with
  | .ok instruction _ => some instruction
  | .error _ _ => none

theorem fetched_eq_some_iff :
    machine.fetched = some instruction ↔ ∃ stream, machine.fetch = .ok instruction stream := by
  unfold fetched
  cases machine.fetch <;> simp

/-- The reads of a fetch cover the bytes from the instruction address up to the program counter. -/
theorem covers_of_advances {opcode : UInt16} {stream : InstructionStream}
    (h : Advances machine.bus ((machine.stream machine.cpu.pc).afterOpcode opcode) stream) :
    Covers machine.cpu.pc stream.events stream.pc :=
  h.covers (Covers.nil.snoc .word opcode.toUInt32)

theorem covers_of_fetch {stream : InstructionStream}
    (h : machine.fetch = .ok instruction stream) :
    Covers machine.cpu.pc stream.events stream.pc := by
  obtain ⟨opcode, -, hadvances⟩ := Fetch.instruction_ok h
  exact covers_of_advances hadvances

/-- The outcomes of a step. -/
inductive Steps (machine : Machine β) : Outcome β → Prop
  | unfetched {fault : Fault} {stream : InstructionStream}
      (hfetch : machine.fetch = .error fault stream) :
      Steps machine ⟨some fault, (machine.withStream stream).stop⟩
  | completed {instruction : Instruction} {stream : InstructionStream} {last : Machine β}
      (hfetch : machine.fetch = .ok instruction stream)
      (hexecute : Exec.execute instruction (machine.withStream stream) = .ok () last) :
      Steps machine ⟨none, last⟩
  | refused {instruction : Instruction} {stream : InstructionStream} {last : Machine β}
      (hfetch : machine.fetch = .ok instruction stream)
      (hexecute : Exec.execute instruction (machine.withStream stream) = .error .busError last) :
      Steps machine ⟨some .busError, last.stop⟩

theorem step_of_fetch_error {fault : Fault} {stream : InstructionStream}
    (hfetch : machine.fetch = .error fault stream) :
    machine.step = ⟨some fault, (machine.withStream stream).stop⟩ := by
  unfold fetch at hfetch
  unfold step perform
  rw [hfetch]
  rfl

theorem step_of_execute_ok {stream : InstructionStream}
    (hfetch : machine.fetch = .ok instruction stream)
    (hexecute : Exec.execute instruction (machine.withStream stream) = .ok () last) :
    machine.step = ⟨none, last⟩ := by
  unfold fetch at hfetch
  unfold step perform Exec.outcome
  simp only [hfetch, hexecute]

theorem step_of_execute_error {stream : InstructionStream} {fault : Fault}
    (hfetch : machine.fetch = .ok instruction stream)
    (hexecute : Exec.execute instruction (machine.withStream stream) = .error fault last) :
    machine.step = ⟨some fault, last.stop⟩ := by
  unfold fetch at hfetch
  unfold step perform Exec.outcome
  simp only [hfetch, hexecute]
  rfl

theorem steps_step (machine : Machine β) : Steps machine machine.step := by
  cases hfetch : machine.fetch with
  | error fault stream =>
    rw [step_of_fetch_error hfetch]
    exact .unfetched hfetch
  | ok instruction stream =>
    cases hexecute : Exec.execute instruction (machine.withStream stream) with
    | ok value last =>
      rw [step_of_execute_ok hfetch hexecute]
      exact .completed hfetch hexecute
    | error fault last =>
      -- Execution knows no fault but a refused access.
      obtain ⟨rfl, -⟩ := (Exec.orderly_execute instruction).error hexecute
      rw [step_of_execute_error hfetch hexecute]
      exact .refused hfetch hexecute

/-- Once its instruction has been fetched, nothing but a refused access can end a step early. -/
theorem execute_of_fetch {stream : InstructionStream}
    (hfetch : machine.fetch = .ok instruction stream)
    (hfault : machine.step.fault ≠ some .busError) :
    machine.step.fault = none ∧
      Exec.execute instruction (machine.withStream stream) = .ok () machine.step.machine := by
  cases hexecute : Exec.execute instruction (machine.withStream stream) with
  | ok value last =>
    rw [step_of_execute_ok hfetch hexecute]
    exact ⟨rfl, rfl⟩
  | error fault last =>
    obtain ⟨rfl, -⟩ := (Exec.orderly_execute instruction).error hexecute
    rw [step_of_execute_error hfetch hexecute] at hfault
    exact absurd rfl hfault

/-- A step that ends in anything but a refused access has executed nothing. -/
theorem fetch_of_step_fault {fault : Fault} (h : machine.step.fault = some fault)
    (hfault : fault ≠ .busError) :
    ∃ stream, machine.fetch = .error fault stream ∧
      machine.step.machine = (machine.withStream stream).stop := by
  have hsteps := steps_step machine
  generalize machine.step = outcome at h hsteps ⊢
  cases hsteps with
  | unfetched hfetch => cases h; exact ⟨_, hfetch, rfl⟩
  | completed => cases h
  | refused => cases h; exact absurd rfl hfault

/-! ## Runs -/

/-- The machine after a number of steps. A step that ends in a fault counts, and a stopped processor
steps too. -/
def after (machine : Machine β) : (steps : Nat) → Machine β
  | 0 => machine
  | steps + 1 => (machine.after steps).step.machine

theorem after_add (machine : Machine β) (first second : Nat) :
    machine.after (first + second) = (machine.after first).after second := by
  induction second with
  | zero => rfl
  | succ second ih => rw [← Nat.add_assoc, after, after, ih]

end Machine

end M68Fpu
