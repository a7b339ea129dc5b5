import M68Fpu.Proofs.AddressingRules
import M68Fpu.Proofs.BusOrder
import M68Fpu.Proofs.Comparison
import M68Fpu.Proofs.InstructionSet
import M68Fpu.Proofs.Memory.ByteMemory

/-!
# Conditional branches

The two forms of a conditional branch differ in the size of the displacement behind the opcode, and
in nothing else: the displacement is a signed number, and a branch that is taken leads that far from
the address behind the opcode, modulo `2 ^ 32` (`Machine.FollowsBranch`). A displacement that fits a
word is therefore the same in both forms (`signed_signExtendWord`).

A branch stands at the program counter if the bus has an opcode there whose fields say so, and a
displacement behind it (`Machine.HasBranch`). These are the instructions that a fetch turns into
branches, and no others (`Machine.takesBranch_iff`).
-/

namespace M68Fpu

/-! ## Displacements -/

theorem ofInt_signed (value : UInt32) : UInt32.ofInt (signed 32 value.toNat) = value := by
  have h : value.toBitVec.toInt = signed 32 value.toNat := BitVec.toInt_eq_toNat_bmod _
  rw [← h, ← ofBitVec_ofInt, BitVec.ofInt_toInt]

/-- Sign extension keeps the signed number. -/
theorem signed_signExtendWord (word : UInt16) :
    signed 32 (signExtendWord word).toNat = signed 16 word.toNat := by
  have hword := word.toNat_lt
  rw [signExtendWord_eq]
  -- The balanced residue of 16 bits lies well within that of 32 bits.
  simp only [signed, UInt32.ofInt, UInt32.toNat_ofNat', Int.bmod_def]
  omega

/-- The sizes of the displacement of a branch. -/
inductive BranchForm where
  | word
  | long
  deriving DecidableEq, Repr

namespace BranchForm

/-- Bits 6 and 7 of the opcode. -/
def field : BranchForm → Nat
  | word => 2
  | long => 3

def operation : BranchForm → GeneralOp
  | word => .branchWord
  | long => .branchLong

/-- The bytes of the instruction. -/
def length : BranchForm → Nat
  | word => 4
  | long => 6

theorem decode_eq_operation_iff (form : BranchForm) (opcode : UInt16) :
    GeneralOp.decode opcode = some form.operation ↔ bitField opcode 6 2 = form.field := by
  unfold GeneralOp.decode
  cases form <;> split <;> simp_all [operation, field]

variable {β : Type} [Bus β] {bus : β} {stream last : InstructionStream} {form : BranchForm}

/-- The displacement at an address, if the bus has it. -/
def displacementAt (bus : β) (address : UInt32) : BranchForm → Option Int
  | word => (Bus.read16 bus address).map fun value => signed 16 value.toNat
  | long => (Bus.read32 bus address).map fun value => signed 32 value.toNat

/-- The fetch of a displacement. -/
def displacement : BranchForm → Fetch β UInt32
  | word => signExtendWord <$> Fetch.word
  | long => Fetch.long

theorem displacement_of_read {value : Int} (h : form.displacementAt bus stream.pc = some value) :
    ∃ last, form.displacement bus stream = .ok (UInt32.ofInt value) last ∧
      last.pc = stream.pc + UInt32.ofNat (form.length - 2) ∧ last.ir = stream.ir := by
  cases form with
  | word =>
    obtain ⟨word, hread, rfl⟩ := Option.map_eq_some_iff.mp h
    refine ⟨stream.afterWord word, ?_, rfl, rfl⟩
    show (signExtendWord <$> Fetch.word) bus stream = _
    rw [map_eq_pure_bind, Fetch.bind_apply, Fetch.word_of_read hread, ← signExtendWord_eq]
    rfl
  | long =>
    obtain ⟨long, hread, rfl⟩ := Option.map_eq_some_iff.mp h
    refine ⟨stream.afterLong long, ?_, rfl, rfl⟩
    rw [ofInt_signed]
    exact Fetch.long_of_read hread

theorem read_of_displacement {value : UInt32} (h : form.displacement bus stream = .ok value last) :
    ∃ displacement, form.displacementAt bus stream.pc = some displacement := by
  cases form with
  | word =>
    rw [displacement, map_eq_pure_bind] at h
    obtain ⟨word, middle, hword, -⟩ := Fetch.bind_eq_ok_iff.mp h
    obtain ⟨hread, -⟩ := Fetch.word_eq_ok_iff.mp hword
    exact ⟨_, Option.map_eq_some_iff.mpr ⟨word, hread, rfl⟩⟩
  | long =>
    obtain ⟨hread, -⟩ := Fetch.long_eq_ok_iff.mp h
    exact ⟨_, Option.map_eq_some_iff.mpr ⟨value, hread, rfl⟩⟩

end BranchForm

/-! ## Fetches -/

namespace Fetch

variable {β : Type} {bus : β} {stream last : InstructionStream}

theorem branch_eq_ok_iff {displacement : Fetch β UInt32} {instruction : Instruction} :
    branch displacement bus stream = .ok instruction last ↔
      ∃ condition offset, Condition.decode (addressField stream.ir) = some condition ∧
        displacement bus stream = .ok offset last ∧
        instruction = .branch condition (stream.pc + offset) := by
  constructor
  · intro h
    obtain ⟨_, _, hget, hrest⟩ := bind_eq_ok_iff.mp h
    obtain ⟨condition, _, hrequire, hmoved⟩ := bind_eq_ok_iff.mp hrest
    cases hget
    obtain ⟨hcondition, rfl⟩ := require_eq_ok_iff.mp hrequire
    obtain ⟨_, _, hbase, hoffset⟩ := bind_eq_ok_iff.mp hmoved
    cases hbase
    obtain ⟨offset, _, hread, hpure⟩ := bind_eq_ok_iff.mp hoffset
    cases hpure
    exact ⟨condition, offset, hcondition, hread, rfl⟩
  · rintro ⟨condition, offset, hcondition, hread, rfl⟩
    exact bind_eq_ok_iff.mpr ⟨stream, stream, rfl, bind_eq_ok_iff.mpr ⟨condition, stream,
      require_eq_ok_iff.mpr ⟨hcondition, rfl⟩, bind_eq_ok_iff.mpr ⟨stream, stream, rfl,
        bind_eq_ok_iff.mpr ⟨offset, last, hread, rfl⟩⟩⟩⟩

variable [Bus β]

theorem ofOperation_branch (form : BranchForm) :
    (ofOperation form.operation : Fetch β Instruction) = branch form.displacement := by
  cases form <;> rfl

/-- Nothing else is fetched as a branch. -/
theorem branch_of_rest {opcode : UInt16} {condition : Condition} {target : UInt32}
    (hir : stream.ir = opcode) (h : rest opcode bus stream = .ok (.branch condition target) last) :
    ∃ form, OpcodeGroup.decode opcode = .general ∧
      GeneralOp.decode opcode = some (BranchForm.operation form) ∧
      branch form.displacement bus stream = .ok (.branch condition target) last := by
  subst hir
  unfold rest at h
  cases hgroup : OpcodeGroup.decode stream.ir with
  | general =>
    rw [hgroup] at h
    obtain ⟨_, _, hget, hrest⟩ := bind_eq_ok_iff.mp h
    obtain ⟨operation, _, hrequire, hbehind⟩ := bind_eq_ok_iff.mp hrest
    cases hget
    obtain ⟨hoperation, rfl⟩ := require_eq_ok_iff.mp hrequire
    cases operation with
    | branchWord => exact ⟨.word, rfl, hoperation, hbehind⟩
    | branchLong => exact ⟨.long, rfl, hoperation, hbehind⟩
    | command =>
      -- What a command encodes is known, and no branch is among it.
      obtain ⟨second, _, -, hfields⟩ := bind_eq_ok_iff.mp hbehind
      obtain ⟨fields, _, -, hcommand⟩ := bind_eq_ok_iff.mp hfields
      nomatch (ofCommand_ok hcommand).1
  | stateFrame =>
    rw [hgroup] at h
    obtain ⟨_, _, _, hrest⟩ := bind_eq_ok_iff.mp h
    obtain ⟨operation, _, -, hbehind⟩ := bind_eq_ok_iff.mp hrest
    cases operation with
    | save | restore =>
      obtain ⟨_, _, -, hpure⟩ := bind_eq_ok_iff.mp hbehind
      cases hpure
  | unassigned =>
    rw [hgroup] at h
    cases h

end Fetch

/-! ## Steps -/

/-- Whether an instruction is a branch that is taken with a status word. -/
def Instruction.isTaken (status : UInt32) : Instruction → Bool
  | .branch condition _ => condition.holds status
  | _ => false

theorem Instruction.Permits.eq_branch {instruction : Instruction} (h : instruction.Permits .branch) :
    ∃ condition target, instruction = .branch condition target := by
  cases instruction with
  | branch condition target => exact ⟨condition, target, rfl⟩
  | _ => exact h.elim

namespace Machine

open ByteMemory (contents)

variable {β : Type} [Bus β] {machine : Machine β} {form : BranchForm} {opcode : UInt16}
  {condition : Condition} {displacement : Int}

/-- Whether a conditional branch stands at the program counter. -/
structure HasBranch (machine : Machine β) (form : BranchForm) (opcode : UInt16)
    (condition : Condition) (displacement : Int) : Prop where
  opcode_eq : Bus.read16 machine.bus machine.cpu.pc = some opcode
  group_eq : bitField opcode 8 8 = 0xF2
  operation_eq : bitField opcode 6 2 = form.field
  condition_eq : Condition.decode (addressField opcode) = some condition
  displacement_eq : form.displacementAt machine.bus (machine.cpu.pc + 2) = some displacement

/-- Where a branch leads that is taken. -/
def branchTarget (machine : Machine β) (displacement : Int) : UInt32 :=
  UInt32.ofInt (machine.cpu.pc.toNat + 2 + displacement)

theorem fetch_of_hasBranch (h : machine.HasBranch form opcode condition displacement) :
    ∃ stream,
      machine.fetch = .ok (.branch condition (machine.branchTarget displacement)) stream ∧
        stream.pc = machine.cpu.pc + UInt32.ofNat form.length ∧ stream.ir = opcode := by
  let behind := (machine.stream machine.cpu.pc).afterOpcode opcode
  have hbase : behind.pc = machine.cpu.pc + 2 := rfl
  have hrest : machine.fetch = Fetch.branch form.displacement machine.bus behind := by
    rw [← Fetch.ofOperation_branch]
    exact Fetch.instruction_of_operation h.opcode_eq
      ((OpcodeGroup.decode_eq_general_iff opcode).mpr h.group_eq)
      ((form.decode_eq_operation_iff opcode).mpr h.operation_eq)
  have hread : form.displacementAt machine.bus behind.pc = some displacement := h.displacement_eq
  obtain ⟨stream, hdisplacement, hpc, hir⟩ := BranchForm.displacement_of_read hread
  -- The sum of integers is taken modulo `2 ^ 32` once, the addresses are after each addition.
  have htarget : machine.branchTarget displacement = behind.pc + UInt32.ofInt displacement := by
    rw [branchTarget, UInt32.ofInt_add, UInt32.ofInt_add, ofInt_toNat, hbase]
    rfl
  refine ⟨stream, ?_, ?_, hir⟩
  · rw [hrest, htarget]
    exact Fetch.branch_eq_ok_iff.mpr ⟨condition, _, h.condition_eq, hdisplacement, rfl⟩
  · cases form <;> exact hpc.trans (UInt32.add_assoc _ _ _)

theorem hasBranch_of_fetch {target : UInt32} {stream : InstructionStream}
    (h : machine.fetch = .ok (.branch condition target) stream) :
    ∃ form opcode displacement, machine.HasBranch form opcode condition displacement := by
  cases hread : Bus.read16 machine.bus machine.cpu.pc with
  | none =>
    have hrefused : machine.fetch = .error .busError _ := Fetch.instruction_of_refusal hread
    cases hrefused.symm.trans h
  | some opcode =>
    let behind := (machine.stream machine.cpu.pc).afterOpcode opcode
    have hir : behind.ir = opcode := rfl
    have hrest : machine.fetch = Fetch.rest opcode machine.bus behind :=
      Fetch.instruction_of_read hread
    obtain ⟨form, hgroup, hoperation, hbranch⟩ := Fetch.branch_of_rest hir (hrest.symm.trans h)
    obtain ⟨_, offset, hcondition, hdisplacement, heq⟩ := Fetch.branch_eq_ok_iff.mp hbranch
    cases heq
    obtain ⟨displacement, hvalue⟩ := BranchForm.read_of_displacement hdisplacement
    exact ⟨form, opcode, displacement, hread,
      (OpcodeGroup.decode_eq_general_iff opcode).mp hgroup,
      (form.decode_eq_operation_iff opcode).mp hoperation, hcondition, hvalue⟩

theorem takesBranch_iff (machine : Machine β) :
    machine.TakesBranch ↔
      ∃ form opcode condition displacement,
        machine.HasBranch form opcode condition displacement ∧
          condition.holds machine.cpu.fpsr = true := by
  constructor
  · rintro ⟨condition, target, hfetched, hholds⟩
    obtain ⟨stream, hfetch⟩ := fetched_eq_some_iff.mp hfetched
    obtain ⟨form, opcode, displacement, hbranch⟩ := hasBranch_of_fetch hfetch
    exact ⟨form, opcode, condition, displacement, hbranch, hholds⟩
  · rintro ⟨form, opcode, condition, displacement, hbranch, hholds⟩
    obtain ⟨stream, hfetch, -, -⟩ := fetch_of_hasBranch hbranch
    exact ⟨condition, _, fetched_eq_some_iff.mpr ⟨stream, hfetch⟩, hholds⟩

theorem any_fetched_iff (machine : Machine β) :
    machine.fetched.any (Instruction.isTaken machine.cpu.fpsr) = true ↔ machine.TakesBranch := by
  rw [Option.any_eq_true]
  constructor
  · rintro ⟨instruction, hfetched, htaken⟩
    cases instruction with
    | branch condition target => exact ⟨condition, target, hfetched, htaken⟩
    | _ => exact (Bool.false_ne_true htaken).elim
  · rintro ⟨condition, target, hfetched, hholds⟩
    exact ⟨_, hfetched, hholds⟩

instance (machine : Machine β) : Decidable machine.TakesBranch :=
  decidable_of_iff _ machine.any_fetched_iff

/-- How often the hook before a branch has run. -/
def hooks (machine : Machine β) : Nat := machine.events.count .branch

omit [Bus β] in
theorem hooks_record (machine : Machine β) (event : BusEvent) :
    (machine.record event).hooks = machine.hooks + if event = .branch then 1 else 0 := by
  simp [hooks, record, List.count_append, List.count_singleton]

omit [Bus β] in
theorem hooks_eq_zero (h : ∀ event ∈ machine.events, event.IsFetch) : machine.hooks = 0 :=
  List.count_eq_zero.mpr fun hmem => h _ hmem

theorem hooks_withStream {instruction : Instruction} {stream : InstructionStream}
    (hfetch : machine.fetch = .ok instruction stream) : (machine.withStream stream).hooks = 0 :=
  hooks_eq_zero (isFetch_of_covers (covers_of_fetch hfetch))

theorem step_of_taken {target : UInt32} {stream : InstructionStream}
    (hfetch : machine.fetch = .ok (.branch condition target) stream)
    (hholds : condition.holds machine.cpu.fpsr = true) :
    machine.step = ⟨none, { (machine.withStream stream).record .branch with
      cpu := { machine.cpu with
        pc := target, ir := stream.ir, cycles := machine.cpu.cycles + Exec.branchCycles }
      bus := Bus.traceBranch machine.bus }⟩ := by
  have hexecute : Exec.execute (.branch condition target) (machine.withStream stream) = _ :=
    Exec.branch_of_holds target hholds
  exact step_of_execute_ok hfetch hexecute

theorem step_of_notTaken {target : UInt32} {stream : InstructionStream}
    (hfetch : machine.fetch = .ok (.branch condition target) stream)
    (hholds : ¬ condition.holds machine.cpu.fpsr = true) :
    machine.step = ⟨none, { machine.withStream stream with
      cpu := { machine.cpu with
        pc := stream.pc, ir := stream.ir, cycles := machine.cpu.cycles + Exec.branchCycles } }⟩ := by
  have hexecute : Exec.execute (.branch condition target) (machine.withStream stream) = _ :=
    Exec.branch_of_not_holds target hholds
  exact step_of_execute_ok hfetch hexecute

theorem hooks_of_taken {target : UInt32} {stream : InstructionStream}
    (hfetch : machine.fetch = .ok (.branch condition target) stream)
    (hholds : condition.holds machine.cpu.fpsr = true) : machine.step.machine.hooks = 1 := by
  have hhooks := (machine.withStream stream).hooks_record .branch
  rw [hooks_withStream hfetch] at hhooks
  rw [step_of_taken hfetch hholds]
  exact hhooks

/-- The step of a conditional branch. It completes, and the status register decides where it leads
and whether the hook runs. -/
structure FollowsBranch [ByteMemory β] (machine : Machine β) (form : BranchForm) (opcode : UInt16)
    (condition : Condition) (displacement : Int) : Prop where
  fault_eq : machine.step.fault = none
  cpu_eq : machine.step.machine.cpu = { machine.cpu with
    pc := if condition.holds machine.cpu.fpsr then machine.branchTarget displacement
      else machine.cpu.pc + UInt32.ofNat form.length
    ir := opcode
    cycles := machine.cpu.cycles + 7 }
  bus_eq : machine.step.machine.bus
    = if condition.holds machine.cpu.fpsr then Bus.traceBranch machine.bus else machine.bus
  hooks_eq : machine.step.machine.hooks = if condition.holds machine.cpu.fpsr then 1 else 0
  memory_eq : contents machine.step.machine.bus = contents machine.bus

theorem followsBranch_of_hasBranch [ByteMemory β]
    (h : machine.HasBranch form opcode condition displacement) :
    machine.FollowsBranch form opcode condition displacement := by
  obtain ⟨stream, hfetch, hpc, hir⟩ := fetch_of_hasBranch h
  by_cases hholds : condition.holds machine.cpu.fpsr = true
  · have hstep := step_of_taken hfetch hholds
    have hhooks := hooks_of_taken hfetch hholds
    rw [hir] at hstep
    rw [hstep] at hhooks
    constructor <;> rw [hstep]
    · rw [if_pos hholds]
      rfl
    · rw [if_pos hholds]
    · rw [if_pos hholds, hhooks]
    · exact ByteMemory.traceBranch_eq machine.bus
  · have hstep := step_of_notTaken hfetch hholds
    rw [hir, hpc] at hstep
    constructor <;> rw [hstep]
    · rw [if_neg hholds]
      rfl
    · rw [if_neg hholds]
      rfl
    · rw [if_neg hholds]
      exact hooks_withStream hfetch
    · rfl

/-- Whatever has recorded a hook was a branch. -/
theorem fetched_of_adds {instruction : Instruction} {stream : InstructionStream} {last : Machine β}
    (hfetch : machine.fetch = .ok instruction stream)
    (hadds : (machine.withStream stream).Adds instruction.Permits last)
    (hmem : .branch ∈ last.events) :
    ∃ condition target, machine.fetched = some (.branch condition target) := by
  obtain ⟨accesses, hevents, hordered⟩ := orderedEvents_of_adds hfetch hadds
  rw [hevents] at hmem
  rcases List.mem_append.mp hmem with hfetches | haccesses
  · exact (hordered.isFetch _ hfetches).elim
  · obtain ⟨condition, target, rfl⟩ := (hordered.permits _ haccesses).eq_branch
    exact ⟨condition, target, fetched_eq_some_iff.mpr ⟨stream, hfetch⟩⟩

theorem fetched_of_hook (hmem : .branch ∈ machine.step.machine.events) :
    ∃ condition target, machine.fetched = some (.branch condition target) := by
  have hsteps := steps_step machine
  generalize machine.step = outcome at hsteps hmem
  cases hsteps with
  | unfetched hfetch => exact (isFetch_of_fetch_error hfetch _ hmem).elim
  | completed hfetch hexecute =>
    exact fetched_of_adds hfetch ((Exec.emits_execute _).ok hexecute) hmem
  | refused hfetch hexecute =>
    exact fetched_of_adds hfetch ((Exec.emits_execute _).error hexecute) hmem

/-- The hook runs once for a branch that is taken, and never else. -/
theorem hooks_step (machine : Machine β) :
    machine.step.machine.hooks = if machine.TakesBranch then 1 else 0 := by
  by_cases htakes : machine.TakesBranch
  · rw [if_pos htakes]
    obtain ⟨condition, target, hfetched, hholds⟩ := htakes
    obtain ⟨stream, hfetch⟩ := fetched_eq_some_iff.mp hfetched
    exact hooks_of_taken hfetch hholds
  · rw [if_neg htakes]
    -- A hook that has run belongs to a branch, and the condition of that branch holds.
    refine List.count_eq_zero.mpr fun hmem => htakes ?_
    obtain ⟨condition, target, hfetched⟩ := fetched_of_hook hmem
    obtain ⟨stream, hfetch⟩ := fetched_eq_some_iff.mp hfetched
    obtain ⟨-, -, hbranched⟩ := branched_step hfetch
    exact ⟨condition, target, hfetched, hbranched.announced_iff.mp hmem⟩

end Machine

end M68Fpu
