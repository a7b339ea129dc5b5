import M68Fpu.Proofs.Calls
import Mathlib.Data.List.Forall2

/-!
# One bus in place of another

A bus can stand in for another one if it accepts every access that the other one accepts, with the
same answer, and goes on doing so (`Bus.Imitates`). It may accept more. A processor on the second bus
then does what it does on the first one, call by call, for as long as the first bus refuses nothing:
the same registers, the same faults and the same uses of the bus (`Machine.matches_outcomes`).

That one fetch or one action is followed in this way is a relation between the two runs of it
(`Fetch.Follows`, `Exec.Follows`), which every instruction inherits.
-/

namespace M68Fpu

variable {β γ : Type} [Bus β] [Bus γ]

/-- Related buses of which the second accepts what the first accepts, and after which they are
related again. -/
structure Bus.Imitates (Related : β → γ → Prop) : Prop where
  read8 {first : β} {second : γ} {address : UInt32} {value : UInt8} : Related first second →
    Bus.read8 first address = some value → Bus.read8 second address = some value
  read16 {first : β} {second : γ} {address : UInt32} {value : UInt16} : Related first second →
    Bus.read16 first address = some value → Bus.read16 second address = some value
  read32 {first : β} {second : γ} {address value : UInt32} : Related first second →
    Bus.read32 first address = some value → Bus.read32 second address = some value
  write8 {first firstAfter : β} {second : γ} {address : UInt32} {value : UInt8} :
    Related first second → Bus.write8 first address value = some firstAfter →
    ∃ secondAfter, Bus.write8 second address value = some secondAfter ∧
      Related firstAfter secondAfter
  write16 {first firstAfter : β} {second : γ} {address : UInt32} {value : UInt16} :
    Related first second → Bus.write16 first address value = some firstAfter →
    ∃ secondAfter, Bus.write16 second address value = some secondAfter ∧
      Related firstAfter secondAfter
  write32 {first firstAfter : β} {second : γ} {address value : UInt32} :
    Related first second → Bus.write32 first address value = some firstAfter →
    ∃ secondAfter, Bus.write32 second address value = some secondAfter ∧
      Related firstAfter secondAfter
  traceBranch {first : β} {second : γ} : Related first second →
    Related (Bus.traceBranch first) (Bus.traceBranch second)

/-! ## Fetches -/

namespace Fetch

/-- A fetch that ends on the second bus as it ends on the first, unless the first refuses it. -/
structure Follows {α : Type} (firstBus : β) (secondBus : γ) (first : Fetch β α)
    (second : Fetch γ α) : Prop where
  ok {stream last : InstructionStream} {value : α} :
    first firstBus stream = .ok value last → second secondBus stream = .ok value last
  error {stream last : InstructionStream} {fault : Fault} : fault ≠ .busError →
    first firstBus stream = .error fault last → second secondBus stream = .error fault last

theorem follows_congruence {Related : β → γ → Prop} (himitates : Bus.Imitates Related)
    {firstBus : β} {secondBus : γ} (hbus : Related firstBus secondBus) :
    Congruence fun _ => Follows firstBus secondBus where
  pure value := ⟨fun h => h, fun _ h => h⟩
  get := ⟨fun h => h, fun _ h => h⟩
  reject cause := ⟨nofun, fun _ h => h⟩
  bind {α δ first second firstNext secondNext} hfirst hnext := by
    constructor
    · intro stream last value h
      rw [bind_apply] at h ⊢
      cases hresult : first firstBus stream with
      | ok middle between =>
        rw [hresult] at h
        rw [hfirst.ok hresult]
        exact (hnext middle).ok h
      | error fault between => rw [hresult] at h; cases h
    · intro stream last fault hfault h
      rw [bind_apply] at h ⊢
      cases hresult : first firstBus stream with
      | ok middle between =>
        rw [hresult] at h
        rw [hfirst.ok hresult]
        exact (hnext middle).error hfault h
      | error fault' between =>
        rw [hresult] at h
        cases h
        rw [hfirst.error hfault hresult]
  word := by
    constructor
    · intro stream last value h
      cases hread : Bus.read16 firstBus stream.pc with
      | none => rw [word_of_refusal hread] at h; cases h
      | some answer =>
        rw [word_of_read hread] at h
        rw [word_of_read (himitates.read16 hbus hread)]
        cases h
        rfl
    · intro stream last fault hfault h
      cases hread : Bus.read16 firstBus stream.pc with
      | none => rw [word_of_refusal hread] at h; cases h; exact absurd rfl hfault
      | some answer => rw [word_of_read hread] at h; cases h
  long := by
    constructor
    · intro stream last value h
      cases hread : Bus.read32 firstBus stream.pc with
      | none => rw [long_of_refusal hread] at h; cases h
      | some answer =>
        rw [long_of_read hread] at h
        rw [long_of_read (himitates.read32 hbus hread)]
        cases h
        rfl
    · intro stream last fault hfault h
      cases hread : Bus.read32 firstBus stream.pc with
      | none => rw [long_of_refusal hread] at h; cases h; exact absurd rfl hfault
      | some answer => rw [long_of_read hread] at h; cases h

theorem follows_instruction {Related : β → γ → Prop} (himitates : Bus.Imitates Related)
    {firstBus : β} {secondBus : γ} (hbus : Related firstBus secondBus) :
    Follows firstBus secondBus (instruction : Fetch β Instruction) instruction := by
  have hcongruence := follows_congruence himitates hbus
  -- The opcode decides which of the two groups goes on, or that there is no instruction.
  have hrest (opcode : UInt16) : Follows firstBus secondBus (rest opcode) (rest opcode) := by
    unfold rest
    cases OpcodeGroup.decode opcode with
    | general => exact hcongruence.general
    | stateFrame => exact hcongruence.stateFrame
    | unassigned => exact ⟨nofun, fun _ h => h⟩
  constructor
  · intro stream last value h
    cases hread : Bus.read16 firstBus stream.pc with
    | none => rw [instruction_of_refusal hread] at h; cases h
    | some opcode =>
      rw [instruction_of_read hread] at h
      rw [instruction_of_read (himitates.read16 hbus hread)]
      exact (hrest opcode).ok h
  · intro stream last fault hfault h
    cases hread : Bus.read16 firstBus stream.pc with
    | none => rw [instruction_of_refusal hread] at h; cases h; exact absurd rfl hfault
    | some opcode =>
      rw [instruction_of_read hread] at h
      rw [instruction_of_read (himitates.read16 hbus hread)]
      exact (hrest opcode).error hfault h

end Fetch

/-! ## Execution -/

/-- Machines with the same processor and the same record on related buses. -/
structure Machine.Matches (Related : β → γ → Prop) (first : Machine β) (second : Machine γ) :
    Prop where
  cpu_eq : first.cpu = second.cpu
  events_eq : first.events = second.events
  bus : Related first.bus second.bus

namespace Exec

variable {Related : β → γ → Prop}

/-- An action that has the same result on a matching machine, unless it is refused an access. -/
structure Follows (Related : β → γ → Prop) {α : Type} (first : Exec β α) (second : Exec γ α) :
    Prop where
  ok {firstMachine firstLast : Machine β} {secondMachine : Machine γ} {value : α} :
    firstMachine.Matches Related secondMachine → first firstMachine = .ok value firstLast →
    ∃ secondLast, second secondMachine = .ok value secondLast ∧
      firstLast.Matches Related secondLast

omit [Bus β] [Bus γ] in
/-- A read that has been recorded. -/
theorem follows_answered {α : Type} (first : β → Option α) (second : γ → Option α)
    (event : Option α → BusEvent)
    (hread : ∀ {firstBus secondBus value}, Related firstBus secondBus →
      first firstBus = some value → second secondBus = some value) :
    Follows Related
      (fun machine => answered (first machine.bus) (machine.record (event (first machine.bus))))
      (fun machine =>
        answered (second machine.bus) (machine.record (event (second machine.bus)))) := by
  constructor
  intro firstMachine firstLast secondMachine value hmatches h
  obtain ⟨hanswer, rfl⟩ := answered_eq_ok_iff.mp h
  have hanswer' := hread hmatches.bus hanswer
  refine ⟨_, answered_eq_ok_iff.mpr ⟨hanswer', rfl⟩, hmatches.cpu_eq, ?_, hmatches.bus⟩
  show firstMachine.events ++ [event (first firstMachine.bus)]
    = secondMachine.events ++ [event (second secondMachine.bus)]
  rw [hmatches.events_eq, hanswer, hanswer']

omit [Bus β] [Bus γ] in
/-- A write that has been recorded. -/
theorem follows_written (first : β → Option β) (second : γ → Option γ) (size : AccessSize)
    (address value : UInt32)
    (hwrite : ∀ {firstBus firstAfter secondBus}, Related firstBus secondBus →
      first firstBus = some firstAfter →
      ∃ secondAfter, second secondBus = some secondAfter ∧ Related firstAfter secondAfter) :
    Follows Related (fun machine => written size address value (first machine.bus) machine)
      (fun machine => written size address value (second machine.bus) machine) := by
  constructor
  intro firstMachine firstLast secondMachine _ hmatches h
  obtain ⟨firstAfter, hfirst, rfl⟩ := written_eq_ok_iff.mp h
  obtain ⟨secondAfter, hsecond, hafter⟩ := hwrite hmatches.bus hfirst
  refine ⟨_, written_eq_ok_iff.mpr ⟨secondAfter, hsecond, rfl⟩, hmatches.cpu_eq, ?_, hafter⟩
  show firstMachine.events ++ _ = secondMachine.events ++ _
  rw [hmatches.events_eq]

theorem follows_congruence (himitates : Bus.Imitates Related) :
    Congruence fun _ => Follows Related where
  pure value := by
    constructor
    intro firstMachine firstLast secondMachine _ hmatches h
    cases h
    exact ⟨secondMachine, rfl, hmatches⟩
  bind {α δ first second firstNext secondNext} hfirst hnext := by
    constructor
    intro firstMachine firstLast secondMachine value hmatches h
    obtain ⟨middle, firstMiddle, hresult, hrest⟩ := bind_eq_ok_iff.mp h
    obtain ⟨secondMiddle, hresult', hmatches'⟩ := hfirst.ok hmatches hresult
    obtain ⟨secondLast, hrest', hlast⟩ := (hnext middle).ok hmatches' hrest
    exact ⟨secondLast, bind_eq_ok_iff.mpr ⟨middle, secondMiddle, hresult', hrest'⟩, hlast⟩
  cpu := by
    constructor
    intro firstMachine firstLast secondMachine _ hmatches h
    cases h
    exact ⟨secondMachine, by rw [hmatches.cpu_eq]; rfl, hmatches⟩
  modifyCpu change := by
    constructor
    intro firstMachine firstLast secondMachine _ hmatches h
    cases h
    refine ⟨_, rfl, ?_, hmatches.events_eq, hmatches.bus⟩
    show change firstMachine.cpu = change secondMachine.cpu
    rw [hmatches.cpu_eq]
  readByte address :=
    follows_answered (fun bus => Bus.read8 bus address) (fun bus => Bus.read8 bus address)
      (fun answer => .read .data .byte address (answer.map UInt8.toUInt32)) himitates.read8
  readWord address :=
    follows_answered (fun bus => Bus.read16 bus address) (fun bus => Bus.read16 bus address)
      (fun answer => .read .data .word address (answer.map UInt16.toUInt32)) himitates.read16
  readLong address :=
    follows_answered (fun bus => Bus.read32 bus address) (fun bus => Bus.read32 bus address)
      (fun answer => .read .data .long address answer) himitates.read32
  writeByte address value :=
    follows_written (fun bus => Bus.write8 bus address value)
      (fun bus => Bus.write8 bus address value) .byte address value.toUInt32 himitates.write8
  writeWord address value :=
    follows_written (fun bus => Bus.write16 bus address value)
      (fun bus => Bus.write16 bus address value) .word address value.toUInt32 himitates.write16
  writeLong address value :=
    follows_written (fun bus => Bus.write32 bus address value)
      (fun bus => Bus.write32 bus address value) .long address value himitates.write32
  traceBranch := by
    constructor
    intro firstMachine firstLast secondMachine _ hmatches h
    cases h
    refine ⟨_, rfl, hmatches.cpu_eq, ?_, himitates.traceBranch hmatches.bus⟩
    show firstMachine.events ++ [BusEvent.branch] = secondMachine.events ++ [BusEvent.branch]
    rw [hmatches.events_eq]

end Exec

/-! ## Steps and resets -/

/-- Outcomes with the same fault, if any, and matching machines. -/
structure Outcome.Matches (Related : β → γ → Prop) (first : Outcome β) (second : Outcome γ) :
    Prop where
  fault_eq : first.fault = second.fault
  machine : first.machine.Matches Related second.machine

namespace Machine

variable {Related : β → γ → Prop} {first : Machine β} {second : Machine γ}

theorem matches_step (himitates : Bus.Imitates Related) (hcpu : first.cpu = second.cpu)
    (hbus : Related first.bus second.bus) (hfault : first.step.fault ≠ some .busError) :
    first.step.Matches Related second.step := by
  have hfollows := Fetch.follows_instruction himitates hbus
  have hstream : first.stream first.cpu.pc = second.stream second.cpu.pc := by
    unfold stream
    rw [hcpu]
  have hstart (stream : InstructionStream) :
      (first.withStream stream).Matches Related (second.withStream stream) :=
    ⟨by simp only [withStream, hcpu], rfl, hbus⟩
  have hsteps := steps_step first
  generalize first.step = outcome at hsteps hfault ⊢
  cases hsteps with
  | @unfetched fault stream hfetch =>
    have hfetch' : second.fetch = .error fault stream := by
      unfold fetch at hfetch ⊢
      rw [← hstream]
      exact hfollows.error (fun h => hfault (congrArg some h)) hfetch
    rw [step_of_fetch_error hfetch']
    refine ⟨rfl, ?_, rfl, hbus⟩
    show { (first.withStream stream).cpu with stopped := true }
      = { (second.withStream stream).cpu with stopped := true }
    rw [(hstart stream).cpu_eq]
  | @completed instruction stream last hfetch hexecute =>
    have hfetch' : second.fetch = .ok instruction stream := by
      unfold fetch at hfetch ⊢
      rw [← hstream]
      exact hfollows.ok hfetch
    have hexec := (Exec.follows_congruence himitates).execute instruction
    obtain ⟨last', hexecute', hlast⟩ := hexec.ok (hstart stream) hexecute
    rw [step_of_execute_ok hfetch' hexecute']
    exact ⟨rfl, hlast⟩
  | refused => exact absurd rfl hfault

theorem matches_reset (himitates : Bus.Imitates Related) (hcpu : first.cpu = second.cpu)
    (hbus : Related first.bus second.bus) (hfault : first.reset.fault ≠ some .busError) :
    first.reset.Matches Related second.reset := by
  have hfirst := first.resets_reset
  have hsecond := second.resets_reset
  generalize first.reset = firstOutcome at hfirst hfault ⊢
  generalize second.reset = secondOutcome at hsecond ⊢
  cases hfirst with
  | noProgram | noStack => exact absurd rfl hfault
  | completed hstack hprogram =>
    have hstack' := himitates.read32 hbus hstack
    have hprogram' := himitates.read32 hbus hprogram
    cases hsecond with
    | noStack hrefused => cases hstack'.symm.trans hrefused
    | noProgram _ hrefused => cases hprogram'.symm.trans hrefused
    | completed hstack'' hprogram'' =>
      obtain rfl := Option.some.inj (hstack'.symm.trans hstack'')
      obtain rfl := Option.some.inj (hprogram'.symm.trans hprogram'')
      exact ⟨rfl, by rw [hcpu], rfl, hbus⟩

theorem matches_call (himitates : Bus.Imitates Related) (hcpu : first.cpu = second.cpu)
    (hbus : Related first.bus second.bus) (call : Call)
    (hfault : (first.call call).fault ≠ some .busError) :
    (first.call call).Matches Related (second.call call) := by
  cases call with
  | step => exact matches_step himitates hcpu hbus hfault
  | reset => exact matches_reset himitates hcpu hbus hfault

/-! ## Runs -/

/-- What one call preserves, the calls behind it preserve. -/
theorem matches_outcomes (himitates : Bus.Imitates Related) {calls : List Call}
    (hcpu : first.cpu = second.cpu) (hbus : Related first.bus second.bus)
    (hfault : ∀ outcome ∈ first.outcomes calls, outcome.fault ≠ some .busError) :
    List.Forall₂ (Outcome.Matches Related) (first.outcomes calls) (second.outcomes calls) ∧
      Related (first.afterCalls calls).bus (second.afterCalls calls).bus := by
  induction calls generalizing first second with
  | nil => exact ⟨.nil, hbus⟩
  | cons call rest ih =>
    have hcall := matches_call himitates hcpu hbus call (hfault _ List.mem_cons_self)
    obtain ⟨hrest, hlast⟩ := ih hcall.machine.cpu_eq hcall.machine.bus fun outcome hmem =>
      hfault outcome (List.mem_cons_of_mem _ hmem)
    exact ⟨.cons hcall hrest, hlast⟩

end Machine

end M68Fpu
