import M68Fpu.Proofs.CycleCount

/-!
# No instruction costs more than a square root

The cycles of an instruction are bounded by those of its most expensive operation: a register list
has eight registers at most, and nothing else comes near. An instruction that is refused an access
charges no more than one that completes. So no step, and no other way of executing an instruction,
adds more than `maxCycles` to the count (`Machine.cycles_perform_le`), and a sequence of calls adds
that much for each of them at most (`Machine.cycles_afterCalls_le`).
-/

namespace M68Fpu

/-- The cycles of the most expensive operation. -/
def maxCycles : Nat := Opmode.sqrt.cycles

/-! ## Instructions -/

theorem Opmode.cycles_le (opmode : Opmode) : opmode.cycles ≤ maxCycles := by
  cases opmode <;> decide

theorem cycles_list_le (list : UInt8) :
    Exec.multipleCycles * (listedBits list).length ≤ maxCycles :=
  calc
    Exec.multipleCycles * (listedBits list).length ≤ Exec.multipleCycles * 8 :=
      Nat.mul_le_mul_left _ (length_listedBits_le list)
    _ ≤ maxCycles := by decide

theorem Command.Encodes.cycles_le {opcode : UInt16} {fields : Command} {instruction : Instruction}
    (h : fields.Encodes opcode instruction) : instruction.cycles ≤ maxCycles := by
  cases h with
  | registerArithmetic | memoryArithmetic => exact Opmode.cycles_le _
  | store => exact (by decide : Exec.storeCycles ≤ maxCycles)
  | loadControl | storeControl => exact (by decide : Exec.controlCycles ≤ maxCycles)
  | storeMultiple mode list => exact cycles_list_le list
  | loadMultiple mode list =>
    rw [Instruction.cycles, length_loadedRegisters]
    exact cycles_list_le list

namespace Fetch

variable {β : Type} [Bus β] {bus : β} {stream last : InstructionStream} {instruction : Instruction}

omit [Bus β] in
theorem cycles_branch {displacement : Fetch β UInt32}
    (h : branch displacement bus stream = .ok instruction last) :
    instruction.cycles = Exec.branchCycles := by
  obtain ⟨_, _, _, hrest⟩ := bind_eq_ok_iff.mp h
  obtain ⟨condition, _, _, hrest⟩ := bind_eq_ok_iff.mp hrest
  obtain ⟨base, _, _, hrest⟩ := bind_eq_ok_iff.mp hrest
  obtain ⟨value, _, _, hpure⟩ := bind_eq_ok_iff.mp hrest
  cases hpure
  rfl

theorem cycles_general_le (h : general bus stream = .ok instruction last) :
    instruction.cycles ≤ maxCycles := by
  obtain ⟨_, _, _, hrest⟩ := bind_eq_ok_iff.mp h
  obtain ⟨operation, _, _, hbehind⟩ := bind_eq_ok_iff.mp hrest
  cases operation with
  | command =>
    obtain ⟨second, _, _, hrest⟩ := bind_eq_ok_iff.mp hbehind
    obtain ⟨fields, _, _, hfields⟩ := bind_eq_ok_iff.mp hrest
    exact (ofCommand_ok hfields).1.cycles_le
  | branchWord | branchLong =>
    rw [cycles_branch hbehind]
    decide

theorem cycles_stateFrame_le (h : stateFrame bus stream = .ok instruction last) :
    instruction.cycles ≤ maxCycles := by
  obtain ⟨_, _, _, hrest⟩ := bind_eq_ok_iff.mp h
  obtain ⟨operation, _, _, hbehind⟩ := bind_eq_ok_iff.mp hrest
  cases operation with
  | save | restore =>
    obtain ⟨operand, _, _, hpure⟩ := bind_eq_ok_iff.mp hbehind
    cases hpure
    exact Nat.zero_le _

theorem cycles_instruction_le (h : Fetch.instruction bus stream = .ok instruction last) :
    instruction.cycles ≤ maxCycles := by
  obtain ⟨opcode, _, _, hrest⟩ := bind_eq_ok_iff.mp h
  cases hgroup : OpcodeGroup.decode opcode with
  | general => rw [hgroup] at hrest; exact cycles_general_le hrest
  | stateFrame => rw [hgroup] at hrest; exact cycles_stateFrame_le hrest
  | unassigned => rw [hgroup] at hrest; cases hrest

end Fetch

/-! ## Execution -/

variable {β : Type} [Bus β]

/-- What a refused register list has charged is for the registers in front of the refused one. -/
theorem Interrupted.cycles_le {before after : Machine β} {instruction : Instruction}
    (h : Interrupted before after instruction) :
    after.cpu.cycles ≤ before.cpu.cycles + instruction.cycles := by
  cases h with
  | reading _ _ _ _ _ hcycles | writing _ _ _ _ hcycles =>
    rw [hcycles]
    exact Nat.le_add_right _ _
  | pushing hregister _ _ _ _ hcycles | popping hregister _ _ _ _ hcycles =>
    have hk := (List.getElem?_eq_some_iff.mp hregister).1
    rw [hcycles]
    exact Nat.add_le_add_left (Nat.mul_le_mul_left _ (Nat.le_of_lt hk)) _

theorem Exec.cycles_outcome_le (instruction : Instruction) (machine : Machine β) :
    ((execute instruction).outcome machine).machine.cpu.cycles
      ≤ machine.cpu.cycles + instruction.cycles := by
  cases hexecute : execute instruction machine with
  | ok _ last =>
    rw [outcome_of_ok hexecute]
    exact Nat.le_of_eq (completed_execute hexecute).cycles_eq
  | error fault last =>
    rw [outcome_of_error hexecute]
    exact (aborted_execute hexecute).interrupted.cycles_le

namespace Machine

theorem cycles_perform_le (machine : Machine β) (start : UInt32) {fetch : Fetch β Instruction}
    (hfetch : ∀ {instruction last},
      fetch machine.bus (machine.stream start) = .ok instruction last →
        instruction.cycles ≤ maxCycles) :
    (machine.perform start fetch).machine.cpu.cycles ≤ machine.cpu.cycles + maxCycles := by
  unfold perform
  cases hok : fetch machine.bus (machine.stream start) with
  | error => exact Nat.le_add_right _ _
  | ok instruction stream =>
    have houtcome := Exec.cycles_outcome_le instruction (machine.withStream stream)
    exact houtcome.trans (Nat.add_le_add_left (hfetch hok) _)

theorem cycles_step_le (machine : Machine β) :
    machine.step.machine.cpu.cycles ≤ machine.cpu.cycles + maxCycles := by
  have hperform := machine.cycles_perform_le machine.cpu.pc Fetch.cycles_instruction_le
  unfold step
  generalize machine.perform machine.cpu.pc Fetch.instruction = outcome at hperform
  obtain ⟨fault, last⟩ := outcome
  cases fault <;> exact hperform

theorem cycles_call_le (machine : Machine β) (call : Call) :
    (machine.call call).machine.cpu.cycles ≤ machine.cpu.cycles + maxCycles := by
  cases call with
  | step => exact machine.cycles_step_le
  | reset => exact machine.cycles_reset ▸ Nat.le_add_right _ _

/-- Every call adds no more than the most expensive operation. -/
theorem cycles_afterCalls_le (machine : Machine β) (calls : List Call) :
    (machine.afterCalls calls).cpu.cycles ≤ machine.cpu.cycles + maxCycles * calls.length := by
  induction calls generalizing machine with
  | nil => exact Nat.le_refl _
  | cons call rest ih =>
    calc
      ((machine.call call).machine.afterCalls rest).cpu.cycles
          ≤ (machine.call call).machine.cpu.cycles + maxCycles * rest.length := ih _
      _ ≤ machine.cpu.cycles + maxCycles + maxCycles * rest.length :=
        Nat.add_le_add_right (machine.cycles_call_le call) _
      _ = machine.cpu.cycles + maxCycles * (call :: rest).length := by
        rw [List.length_cons, Nat.mul_succ]
        omega

end Machine

end M68Fpu
