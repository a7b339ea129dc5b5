import Mathlib.Data.List.Induction
import M68Fpu.Bus.Flat
import M68Fpu.Proofs.Calls
import M68Fpu.Proofs.ConditionCodes
import M68Fpu.Proofs.Interruption

/-!
# The last writer of the status register

Three things write to the status register: a move to it, the report of a result, and a reset
(`StatusWrite`). A report replaces the condition codes and keeps the rest. Every call makes at most
one write, and one that ends in a fault makes none (`Machine.fpsr_call`), so after any calls the
register is what is left of the writes of all of them (`Machine.fpsr_afterCalls`). The condition
codes are then those of the last write, and the other bits those of the last one that was no report
(`ReflectsLast`).

Only a move to the register can put two properties into the condition codes that no number has at
once; without one, the codes stay consistent from a reset on.
-/

namespace M68Fpu

/-! ## Writes -/

/-- A write to the status register. -/
inductive StatusWrite where
  | loaded (value : UInt32)
  | reported (result : Double)
  | cleared
  deriving DecidableEq

namespace StatusWrite

/-- The status word after a write. -/
def apply : StatusWrite → (status : UInt32) → UInt32
  | loaded value, _ => value
  | reported result, status => withConditionCodes status result
  | cleared, _ => 0

/-- The whole word that a write puts into the register, if it does not keep a part of the old
one. -/
def word? : StatusWrite → Option UInt32
  | loaded value => some value
  | reported _ => none
  | cleared => some 0

/-- The condition codes that a write puts into the register. -/
def codes : StatusWrite → UInt32
  | loaded value => value &&& conditionMask
  | reported result => result.conditionCodes
  | cleared => 0

theorem apply_and_conditionMask (write : StatusWrite) (status : UInt32) :
    write.apply status &&& conditionMask = write.codes := by
  cases write with
  | loaded => rfl
  | reported result => exact withConditionCodes_and_conditionMask status result
  | cleared => exact UInt32.zero_and

theorem apply_and_not_conditionMask (write : StatusWrite) (status : UInt32) :
    write.apply status &&& ~~~conditionMask
      = write.word?.getD status &&& ~~~conditionMask := by
  cases write with
  | loaded | cleared => rfl
  | reported result => exact withConditionCodes_and_not_conditionMask status result

/-- Whatever is not moved to the register is consistent. -/
theorem consistentStatus_apply {write : StatusWrite} (h : ∀ value, write ≠ .loaded value)
    (status : UInt32) : ConsistentStatus (write.apply status) := by
  cases write with
  | loaded value => exact absurd rfl (h value)
  | reported result => exact consistentStatus_withConditionCodes status result
  | cleared => exact consistentStatus_zero

/-! ## Sequences of writes -/

/-- The status word after writes, one after the other. -/
def applyAll (writes : List StatusWrite) (initial : UInt32) : UInt32 :=
  writes.foldl (fun status write => write.apply status) initial

theorem applyAll_append (first second : List StatusWrite) (initial : UInt32) :
    applyAll (first ++ second) initial = applyAll second (applyAll first initial) :=
  List.foldl_append

theorem consistentStatus_applyAll {writes : List StatusWrite} {initial : UInt32}
    (hwrites : ∀ value, .loaded value ∉ writes) (hinitial : ConsistentStatus initial) :
    ConsistentStatus (applyAll writes initial) := by
  induction writes generalizing initial with
  | nil => exact hinitial
  | cons write rest ih =>
    refine ih (fun value hvalue => hwrites value (List.mem_cons_of_mem _ hvalue)) ?_
    exact consistentStatus_apply
      (fun value hvalue => hwrites value (hvalue ▸ List.mem_cons_self)) initial

end StatusWrite

open StatusWrite (applyAll applyAll_append)

/-- A status word shows the condition codes of the last write, and otherwise the last whole word that
was written. -/
structure ReflectsLast (writes : List StatusWrite) (initial status : UInt32) : Prop where
  codes_eq : status &&& conditionMask
    = (writes.getLast?.map StatusWrite.codes).getD (initial &&& conditionMask)
  word_eq : status &&& ~~~conditionMask
    = (writes.filterMap StatusWrite.word?).getLast?.getD initial &&& ~~~conditionMask

/-- By induction from the last write backwards: it alone decides on the condition codes, and on the
rest if it is no report. -/
theorem reflectsLast_applyAll (writes : List StatusWrite) (initial : UInt32) :
    ReflectsLast writes initial (applyAll writes initial) := by
  induction writes using List.reverseRecOn with
  | nil => exact ⟨rfl, rfl⟩
  | append_singleton writes write ih =>
    have happly : applyAll (writes ++ [write]) initial = write.apply (applyAll writes initial) :=
      applyAll_append writes [write] initial
    rw [happly]
    refine ⟨?_, ?_⟩
    · rw [write.apply_and_conditionMask, List.getLast?_concat, Option.map_some, Option.getD_some]
    · rw [write.apply_and_not_conditionMask, List.filterMap_append]
      cases hword : write.word? with
      | none => simpa [hword] using ih.word_eq
      | some word => simp [hword]

/-! ## Instructions that write -/

section Instructions

variable {β : Type} [Bus β]

/-- What an instruction writes to the status register, if anything. Moves to a floating-point register
and divisions report nothing. -/
def Instruction.statusWrite (bus : β) (cpu : Cpu) : Instruction → Option StatusWrite
  | arithmetic opmode source destination =>
    if opmode = .move ∨ opmode = .div then none
    else (source.value bus cpu).map fun value =>
      .reported (opmode.apply (cpu.fp.get destination) value)
  | loadControl .fpsr source =>
    (source.value bus cpu .long).map fun value => .loaded value.toUInt32
  | _ => none

theorem Opmode.setsConditionCodes_iff {opmode : Opmode} :
    opmode.setsConditionCodes = true ↔ ¬ (opmode = .move ∨ opmode = .div) := by
  cases opmode <;> decide

theorem Destination.fpsr_written (width : Width) (value : UInt64) (cpu : Cpu)
    (destination : Destination) : (destination.written width value cpu).fpsr = cpu.fpsr := by
  rw [destination.written_eq]

/-- An instruction without a fault has made its write and changed nothing else in the register. -/
theorem Exec.Completed.fpsr_eq {before after : Machine β} {instruction : Instruction}
    (h : Exec.Completed before after instruction) :
    after.cpu.fpsr = applyAll (instruction.statusWrite before.bus before.cpu).toList
      before.cpu.fpsr := by
  cases h with
  | @arithmetic opmode source destination value hvalue _ hcpu =>
    rw [source.moved_eq] at hcpu
    rw [hcpu, Instruction.statusWrite]
    by_cases hreports : opmode.setsConditionCodes = true
    · rw [if_neg (Opmode.setsConditionCodes_iff.mp hreports), hvalue]
      exact if_pos hreports
    · rw [if_pos (Decidable.not_not.mp (mt Opmode.setsConditionCodes_iff.mpr hreports))]
      exact if_neg hreports
  | @loadControl register source value hvalue _ hcpu =>
    rw [source.moved_eq] at hcpu
    rw [hcpu]
    cases register with
    | fpsr => rw [Instruction.statusWrite, hvalue]; rfl
    | fpiar | fpcr => rfl
  | store _ _ hcpu | storeControl _ _ hcpu =>
    rw [hcpu]
    exact Destination.fpsr_written _ _ _ _
  | saveFrame _ hcpu =>
    rw [hcpu]
    exact Destination.fpsr_written _ _ _ _
  | @restoreFrame source _ _ _ hcpu =>
    rw [hcpu, source.moved_eq]
    rfl
  | storeMultiple _ hcpu => rw [hcpu]; rfl
  | loadMultiple _ _ hcpu | taken _ _ hcpu | notTaken _ _ hcpu => rw [hcpu]; rfl

theorem Instruction.statusWrite_withStream (machine : Machine β) (stream : InstructionStream)
    (instruction : Instruction) :
    instruction.statusWrite machine.bus (machine.withStream stream).cpu
      = instruction.statusWrite machine.bus machine.cpu := by
  cases instruction with
  | arithmetic opmode source destination =>
    cases source with
    | register => rfl
    | operand format operand =>
      simp only [statusWrite, Source.value, Operand.value_withStream]
      rfl
  | loadControl register source =>
    cases register <;> simp only [statusWrite, Operand.value_withStream]
  | _ => rfl

end Instructions

/-! ## Calls -/

namespace Machine

variable {β : Type} [Bus β]

/-- What a call writes to the status register, if anything. One that ends in a fault writes
nothing. -/
def statusWrite (machine : Machine β) (call : Call) : Option StatusWrite :=
  match (machine.call call).fault, call with
  | some _, _ => none
  | none, .step => machine.fetched.bind fun instruction =>
    instruction.statusWrite machine.bus machine.cpu
  | none, .reset => some .cleared

/-- The writes of calls, one after the other. -/
def statusWrites (machine : Machine β) : List Call → List StatusWrite
  | [] => []
  | call :: rest =>
    (machine.statusWrite call).toList ++ (machine.call call).machine.statusWrites rest

theorem statusWrite_of_fault {machine : Machine β} {call : Call} {fault : Fault}
    (h : (machine.call call).fault = some fault) : machine.statusWrite call = none := by
  unfold statusWrite
  rw [h]

theorem fpsr_step (machine : Machine β) :
    machine.step.machine.cpu.fpsr
      = applyAll (machine.statusWrite .step).toList machine.cpu.fpsr := by
  have hsteps := machine.steps_step
  cases hfault : machine.step.fault with
  | some fault =>
    have hwrite : machine.statusWrite .step = none := statusWrite_of_fault hfault
    rw [hwrite]
    generalize machine.step = outcome at hfault hsteps ⊢
    cases hsteps with
    | unfetched => rfl
    | completed => cases hfault
    | @refused _ stream last _ hexecute =>
      show last.cpu.fpsr = (machine.withStream stream).cpu.fpsr
      rw [(Exec.aborted_execute hexecute).cpu_eq]
  | none =>
    obtain ⟨instruction, stream, hfetch, hcompleted⟩ := completed_step hfault
    have hfetched : machine.fetched = some instruction := fetched_eq_some_iff.mpr ⟨stream, hfetch⟩
    have hwrite : machine.statusWrite .step = instruction.statusWrite machine.bus machine.cpu := by
      unfold statusWrite call
      simp only [hfault, hfetched, Option.bind_some]
    rw [hwrite, hcompleted.fpsr_eq, ← instruction.statusWrite_withStream machine stream]
    rfl

/-- A step that ends in a fault leaves the status register as it was. -/
theorem fpsr_of_fault {machine : Machine β} {fault : Fault} (h : machine.step.fault = some fault) :
    machine.step.machine.cpu.fpsr = machine.cpu.fpsr := by
  have hwrite : machine.statusWrite .step = none := statusWrite_of_fault h
  rw [fpsr_step, hwrite]
  rfl

theorem statusWrite_reset {machine : Machine β} (h : machine.reset.fault = none) :
    machine.statusWrite .reset = some .cleared := by
  unfold statusWrite call
  simp only [h]

theorem fpsr_reset (machine : Machine β) :
    machine.reset.machine.cpu.fpsr
      = applyAll (machine.statusWrite .reset).toList machine.cpu.fpsr := by
  have hresets := machine.resets_reset
  cases hfault : machine.reset.fault with
  | some fault =>
    have hwrite : machine.statusWrite .reset = none := statusWrite_of_fault hfault
    rw [hwrite]
    generalize machine.reset = outcome at hfault hresets ⊢
    cases hresets with
    | completed => cases hfault
    | noProgram | noStack => rfl
  | none =>
    rw [statusWrite_reset hfault]
    generalize machine.reset = outcome at hfault hresets ⊢
    cases hresets with
    | completed => rfl
    | noProgram | noStack => cases hfault

/-- One call makes its write, if it makes one, and changes nothing else in the register. -/
theorem fpsr_call (machine : Machine β) (call : Call) :
    (machine.call call).machine.cpu.fpsr
      = applyAll (machine.statusWrite call).toList machine.cpu.fpsr := by
  cases call with
  | step => exact machine.fpsr_step
  | reset => exact machine.fpsr_reset

/-- By induction on the calls: what a call has left in the register is what the others go on from. -/
theorem fpsr_afterCalls (machine : Machine β) (calls : List Call) :
    (machine.afterCalls calls).cpu.fpsr
      = applyAll (machine.statusWrites calls) machine.cpu.fpsr := by
  induction calls generalizing machine with
  | nil => rfl
  | cons call rest ih =>
    rw [statusWrites, applyAll_append, ← machine.fpsr_call call]
    exact ih (machine.call call).machine

theorem fpsr_of_reset {machine : Machine β} (h : machine.reset.fault = none) :
    machine.reset.machine.cpu.fpsr = 0 := by
  rw [fpsr_reset, statusWrite_reset h]
  rfl

/-- After any calls the status register shows its last writer; and from a reset on it is consistent,
as long as nothing is moved to it. -/
theorem reflectsLast_afterCalls (machine : Machine β) (calls : List Call) :
    ReflectsLast (machine.statusWrites calls) machine.cpu.fpsr
        (machine.afterCalls calls).cpu.fpsr ∧
      (machine.reset.fault = none →
        (∀ value, .loaded value ∉ machine.reset.machine.statusWrites calls) →
        ConsistentStatus (machine.reset.machine.afterCalls calls).cpu.fpsr) := by
  refine ⟨?_, fun hreset hwrites => ?_⟩
  · rw [fpsr_afterCalls]
    exact reflectsLast_applyAll _ _
  · rw [fpsr_afterCalls, fpsr_of_reset hreset]
    exact StatusWrite.consistentStatus_applyAll hwrites consistentStatus_zero

/-- A machine whose program tests FP0, divides it by itself and tests it again. All condition codes
are set before the reset. -/
def aboutToDivideZeros : Machine FlatMemory where
  cpu := { fpsr := 0x0F000000 }
  bus := .ofProgram 0x1000 0 [0x00, 0x00, 0x10, 0x00, 0x00, 0x00, 0x00, 0x08,
    0xF2, 0x00, 0x00, 0x3A, 0xF2, 0x00, 0x00, 0x20, 0xF2, 0x00, 0x00, 0x3A]

/-- The division reports nothing; the last test reports its result. -/
theorem reflectsLast_afterCalls_invalid :
    aboutToDivideZeros.reset.fault = none ∧
      aboutToDivideZeros.reset.machine.statusWrites [.step, .step, .step]
        = [.reported ⟨0⟩, .reported .invalid] ∧
      (aboutToDivideZeros.reset.machine.afterCalls [.step, .step, .step]).cpu.fpsr &&& conditionMask
        = Double.invalid.conditionCodes ∧
      ConsistentStatus
        (aboutToDivideZeros.reset.machine.afterCalls [.step, .step, .step]).cpu.fpsr := by
  have hreset : aboutToDivideZeros.reset.fault = none := by decide +kernel
  have hwrites : aboutToDivideZeros.reset.machine.statusWrites [.step, .step, .step]
      = [.reported ⟨0⟩, .reported .invalid] := by
    decide +kernel
  have hreflects := (reflectsLast_afterCalls aboutToDivideZeros.reset.machine
    [.step, .step, .step]).1
  rw [hwrites] at hreflects
  have hconsistent := (reflectsLast_afterCalls aboutToDivideZeros [.step, .step, .step]).2 hreset
  rw [hwrites] at hconsistent
  exact ⟨hreset, hwrites, hreflects.codes_eq, hconsistent (by simp)⟩

end Machine

end M68Fpu
