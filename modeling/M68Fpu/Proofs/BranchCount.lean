import M68Fpu.Bus.Flat
import M68Fpu.Bus.Memory
import M68Fpu.Proofs.Calls
import M68Fpu.Proofs.ConditionalBranch

/-!
# Counting branches

Some buses count how often the hook before a branch has run (`CountsBranches`). Whatever a processor
does, that count and the hooks in its record of the bus grow together (`Exec.Tallies`), so after any
steps and resets the bus has counted the branches that were taken (`Machine.branches_afterCalls`). A
branch counts wherever it leads, the next instruction included.
-/

namespace M68Fpu

/-! ## Buses that count -/

/-- A bus that counts the branches that it is told of. Accesses do not count. -/
class CountsBranches (β : Type) [Bus β] where
  branches : β → Nat
  branches_write8 {bus after : β} {address : UInt32} {value : UInt8} :
    Bus.write8 bus address value = some after → branches after = branches bus
  branches_write16 {bus after : β} {address : UInt32} {value : UInt16} :
    Bus.write16 bus address value = some after → branches after = branches bus
  branches_write32 {bus after : β} {address value : UInt32} :
    Bus.write32 bus address value = some after → branches after = branches bus
  branches_traceBranch (bus : β) : branches (Bus.traceBranch bus) = branches bus + 1

instance : CountsBranches FlatMemory where
  branches := FlatMemory.branches
  branches_write8 := ByteAddressed.write_frame _ fun _ _ _ => rfl
  branches_write16 := ByteAddressed.write_frame _ fun _ _ _ => rfl
  branches_write32 := ByteAddressed.write_frame _ fun _ _ _ => rfl
  branches_traceBranch _ := rfl

instance : CountsBranches Memory where
  branches := Memory.branches
  branches_write8 := ByteAddressed.write_frame _ fun _ _ _ => rfl
  branches_write16 := ByteAddressed.write_frame _ fun _ _ _ => rfl
  branches_write32 := ByteAddressed.write_frame _ fun _ _ _ => rfl
  branches_traceBranch _ := rfl

open CountsBranches (branches)

/-! ## Actions -/

namespace Exec

variable {β α γ : Type} [Bus β] [CountsBranches β]

/-- Whether the bus has counted as many branches between two machines as were recorded. -/
def Tallied (first last : Machine β) : Prop :=
  branches last.bus + first.hooks = branches first.bus + last.hooks

/-- An action that the bus counts as it is recorded, however it ends. -/
structure Tallies (action : Exec β α) : Prop where
  ok {machine last : Machine β} {value : α} :
    action machine = .ok value last → Tallied machine last
  error {machine last : Machine β} {fault : Fault} :
    action machine = .error fault last → Tallied machine last

theorem Tallied.trans {first middle last : Machine β} (hfirst : Tallied first middle)
    (hlast : Tallied middle last) : Tallied first last := by
  unfold Tallied at *
  omega

namespace Tallies

theorem pure (value : α) : Tallies (Pure.pure value : Exec β α) where
  ok h := by cases h; exact rfl
  error h := by cases h

theorem bind {action : Exec β α} {next : α → Exec β γ} (haction : Tallies action)
    (hnext : ∀ value, Tallies (next value)) : Tallies (action >>= next) where
  ok h := by
    obtain ⟨first, middle, hfirst, hsecond⟩ := bind_eq_ok_iff.mp h
    exact (haction.ok hfirst).trans ((hnext first).ok hsecond)
  error h := by
    rcases bind_eq_error_iff.mp h with hfirst | ⟨first, middle, hfirst, hsecond⟩
    · exact haction.error hfirst
    · exact (haction.ok hfirst).trans ((hnext first).error hsecond)

theorem cpu : Tallies (Exec.cpu : Exec β Cpu) where
  ok h := by cases h; exact rfl
  error h := by cases h

theorem modifyCpu (change : Cpu → Cpu) : Tallies (Exec.modifyCpu change : Exec β Unit) where
  ok h := by cases h; exact rfl
  error h := by cases h

/-- The record of anything but a hook keeps a tally. -/
theorem tallied_record (machine : Machine β) {event : BusEvent} (h : event ≠ .branch) :
    Tallied machine (machine.record event) := by
  unfold Tallied
  rw [machine.hooks_record, if_neg h]
  rfl

/-- A read that has been recorded. -/
theorem answered {answer : Machine β → Option α} {event : Machine β → BusEvent}
    (hevent : ∀ machine, event machine ≠ .branch) :
    Tallies (fun machine => Exec.answered (answer machine) (machine.record (event machine))) where
  ok {machine _ _} h := by
    obtain ⟨-, rfl⟩ := answered_eq_ok_iff.mp h
    exact tallied_record machine (hevent machine)
  error {machine _ _} h := by
    obtain ⟨-, -, rfl⟩ := answered_eq_error_iff.mp h
    exact tallied_record machine (hevent machine)

/-- A write that has been recorded, whether or not the bus accepted it. -/
theorem written {answer : Machine β → Option β} {size : AccessSize} {address value : UInt32}
    (hbranches : ∀ {machine after}, answer machine = some after →
      branches after = branches machine.bus) :
    Tallies (fun machine => Exec.written size address value (answer machine) machine) where
  ok {machine _ _} h := by
    obtain ⟨bus, hanswer, rfl⟩ := written_eq_ok_iff.mp h
    have hrecord : Tallied machine (machine.record (.write size address value true)) :=
      tallied_record machine nofun
    exact (congrArg (· + machine.hooks) (hbranches hanswer)).trans hrecord
  error {machine _ _} h := by
    obtain ⟨-, -, rfl⟩ := written_eq_error_iff.mp h
    exact tallied_record machine nofun

theorem traceBranch : Tallies (Exec.traceBranch : Exec β Unit) where
  ok {machine _ _} h := by
    cases h
    have hhooks := machine.hooks_record .branch
    have hbranches := CountsBranches.branches_traceBranch machine.bus
    show branches (Bus.traceBranch machine.bus) + machine.hooks
      = branches machine.bus + (machine.record .branch).hooks
    rw [hhooks, hbranches, if_pos rfl, Nat.add_assoc, Nat.add_comm 1]
  error h := by cases h

/-- The bus counts along with every instruction. -/
theorem congruence : Congruence fun α (action : Exec β α) (_ : Exec β α) => Tallies action where
  pure := pure
  bind := bind
  cpu := cpu
  modifyCpu := modifyCpu
  readByte _ := answered fun _ => nofun
  readWord _ := answered fun _ => nofun
  readLong _ := answered fun _ => nofun
  writeByte _ _ := written CountsBranches.branches_write8
  writeWord _ _ := written CountsBranches.branches_write16
  writeLong _ _ := written CountsBranches.branches_write32
  traceBranch := traceBranch

end Tallies

end Exec

/-! ## Steps -/

namespace Machine

variable {β : Type} [Bus β] [CountsBranches β] {machine : Machine β}

theorem branches_of_tallied {instruction : Instruction} {stream : InstructionStream}
    {last : Machine β} (hfetch : machine.fetch = .ok instruction stream)
    (h : Exec.Tallied (machine.withStream stream) last) :
    branches last.bus = branches machine.bus + last.hooks := by
  unfold Exec.Tallied at h
  rw [hooks_withStream hfetch] at h
  exact h

theorem branches_step (machine : Machine β) :
    branches machine.step.machine.bus
      = branches machine.bus + machine.step.machine.hooks := by
  have hsteps := steps_step machine
  generalize machine.step = outcome at hsteps
  cases hsteps with
  | @unfetched _ stream hfetch =>
    -- A fetch runs no hook and leaves the bus as it was.
    have hnone : (machine.withStream stream).stop.hooks = 0 :=
      hooks_eq_zero (isFetch_of_fetch_error hfetch)
    rw [hnone]
    rfl
  | @completed instruction _ _ hfetch hexecute =>
    exact branches_of_tallied hfetch ((Exec.Tallies.congruence.execute instruction).ok hexecute)
  | @refused instruction _ _ hfetch hexecute =>
    have hbranches :=
      branches_of_tallied hfetch ((Exec.Tallies.congruence.execute instruction).error hexecute)
    exact hbranches

/-! ## Calls -/

/-- The number of steps among calls that take a branch. -/
def takenBranches (machine : Machine β) : List Call → Nat
  | [] => 0
  | .step :: rest =>
    (if machine.TakesBranch then 1 else 0) + machine.step.machine.takenBranches rest
  | .reset :: rest => machine.reset.machine.takenBranches rest

theorem branches_afterCalls (machine : Machine β) (calls : List Call) :
    branches (machine.afterCalls calls).bus
      = branches machine.bus + machine.takenBranches calls := by
  induction calls generalizing machine with
  | nil => rfl
  | cons call rest ih =>
    cases call with
    | step =>
      show branches (machine.step.machine.afterCalls rest).bus = _
      rw [ih, branches_step, hooks_step, takenBranches, Nat.add_assoc]
    | reset =>
      show branches (machine.reset.machine.afterCalls rest).bus = _
      rw [ih, bus_reset, takenBranches]

/-! ## Branches by their rule -/

variable [ByteMemory β]

/-- A conditional branch leads to the right place and is announced exactly if it is taken, in both
forms alike; and after any calls, the bus has counted the branches that were taken. -/
theorem branches_by_rule :
    (∀ {machine : Machine β} {form : BranchForm} {opcode : UInt16} {condition : Condition}
      {displacement : Int}, machine.HasBranch form opcode condition displacement →
        machine.FollowsBranch form opcode condition displacement) ∧
    (∀ {first second : Machine β} {opcode opcode' : UInt16} {condition condition' : Condition}
      {word : UInt16}, first.HasBranch .word opcode condition (signed 16 word.toNat) →
        second.HasBranch .long opcode' condition' (signed 32 (signExtendWord word).toNat) →
        first.cpu.pc = second.cpu.pc → condition.holds first.cpu.fpsr = true →
        condition'.holds second.cpu.fpsr = true →
        first.step.machine.cpu.pc = second.step.machine.cpu.pc) ∧
    (∀ machine : Machine β, machine.TakesBranch ↔
      ∃ form opcode condition displacement,
        machine.HasBranch form opcode condition displacement ∧
          condition.holds machine.cpu.fpsr = true) ∧
    (∀ (machine : Machine β) (calls : List Call),
      branches (machine.afterCalls calls).bus
        = branches machine.bus + machine.takenBranches calls) := by
  refine ⟨followsBranch_of_hasBranch, ?_, takesBranch_iff, branches_afterCalls⟩
  intro first second opcode opcode' condition condition' word hfirst hsecond hpc hholds hholds'
  have hword := (followsBranch_of_hasBranch hfirst).cpu_eq
  have hlong := (followsBranch_of_hasBranch hsecond).cpu_eq
  rw [hword, hlong]
  show (if _ then _ else _) = if _ then _ else _
  rw [if_pos hholds, if_pos hholds', branchTarget, branchTarget, hpc, signed_signExtendWord]

/-- A machine about to execute a branch. -/
def aboutToBranch (program : List UInt8) : Machine FlatMemory where
  cpu := { pc := 0x400 }
  bus := .ofProgram 0x10000 0x400 program

/-- Both forms of a branch backwards by 16, and a branch to the next instruction, which counts. -/
theorem branches_by_rule_backwards :
    (aboutToBranch [0xF2, 0x8F, 0xFF, 0xF0]).FollowsBranch .word 0xF28F .always (-16) ∧
      (aboutToBranch [0xF2, 0x8F, 0xFF, 0xF0]).step.machine.cpu.pc
        = (aboutToBranch [0xF2, 0xCF, 0xFF, 0xFF, 0xFF, 0xF0]).step.machine.cpu.pc ∧
      (aboutToBranch [0xF2, 0x8F, 0xFF, 0xF0]).branchTarget (-16) = 0x3F2 ∧
      branches ((aboutToBranch [0xF2, 0x8F, 0x00, 0x02]).afterCalls [.step]).bus = 1 := by
  obtain ⟨hfollows, hsame, -, hcount⟩ := branches_by_rule (β := FlatMemory)
  have hword : (aboutToBranch [0xF2, 0x8F, 0xFF, 0xF0]).HasBranch .word 0xF28F .always
      (signed 16 (0xFFF0 : UInt16).toNat) := by
    constructor <;> decide +kernel
  have hlong : (aboutToBranch [0xF2, 0xCF, 0xFF, 0xFF, 0xFF, 0xF0]).HasBranch .long 0xF2CF .always
      (signed 32 (signExtendWord 0xFFF0).toNat) := by
    constructor <;> decide +kernel
  have hbackwards : signed 16 (0xFFF0 : UInt16).toNat = -16 := by decide +kernel
  have hbranch := hfollows hword
  rw [hbackwards] at hbranch
  refine ⟨hbranch, hsame hword hlong rfl rfl rfl, by decide +kernel, ?_⟩
  rw [hcount]
  decide +kernel

end Machine

end M68Fpu
