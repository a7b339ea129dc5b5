import M68Fpu.Bus.Flat
import M68Fpu.Proofs.Step

/-!
# What execution depends on

Execution depends on the data and address registers, the program counter, the floating-point
registers and the status, and on the bus (`Cpu.Alike`). All else that a processor keeps is hidden:
the instruction register, the control register, the instruction address register, the cycle count
and whether it has been stopped. Two machines that differ in nothing but hidden state do the same,
step by step, until the first of them moves a hidden control register to where a program can see it
(`Machine.sameStep_after`).

The instruction register and the address in the faults are set anew by every step. For the rest it
is shown that no action looks at it (`Exec.Blind`), which is closed under sequencing.
-/

namespace M68Fpu

/-- Processors that agree in everything that execution depends on. -/
structure Cpu.Alike (first second : Cpu) : Prop where
  data_eq : first.data = second.data
  address_eq : first.address = second.address
  pc_eq : first.pc = second.pc
  fp_eq : first.fp = second.fp
  fpsr_eq : first.fpsr = second.fpsr

/-- Whether an instruction moves a hidden control register out of the FPU. -/
def Instruction.RevealsControl : Instruction → Prop
  | .storeControl register _ => register ≠ .fpsr
  | _ => False

instance : DecidablePred Instruction.RevealsControl
  | .storeControl register _ => inferInstanceAs (Decidable (register ≠ .fpsr))
  | .arithmetic .. | .store .. | .loadControl .. | .storeMultiple .. | .loadMultiple ..
  | .branch .. | .saveFrame .. | .restoreFrame .. => inferInstanceAs (Decidable False)

theorem Index.offset_congr {first second : Cpu} (h : first.Alike second) (index : Index) :
    index.offset first = index.offset second := by
  unfold Index.offset
  rw [h.data_eq, h.address_eq]

variable {β : Type}

/-- Two machines at the same point of a step that they began with `i` and `j` cycles. -/
structure Machine.Lockstep (i j : Nat) (first second : Machine β) : Prop where
  cpu : first.cpu.Alike second.cpu
  bus_eq : first.bus = second.bus
  events_eq : first.events = second.events
  cycles_eq : ∃ charged, first.cpu.cycles = i + charged ∧ second.cpu.cycles = j + charged

theorem Machine.Lockstep.record {i j : Nat} {first second : Machine β}
    (h : first.Lockstep i j second) (event : BusEvent) :
    (first.record event).Lockstep i j (second.record event) := by
  refine { h with events_eq := ?_ }
  show first.events ++ _ = second.events ++ _
  rw [h.events_eq]

namespace Exec

variable {α γ : Type}

/-- Results with the same value or the same fault, and machines that are still in lockstep. -/
inductive SameResult (i j : Nat) :
    EStateM.Result Fault (Machine β) α → EStateM.Result Fault (Machine β) α → Prop
  | ok {value : α} {first second : Machine β} (h : first.Lockstep i j second) :
      SameResult i j (.ok value first) (.ok value second)
  | error {fault : Fault} {first second : Machine β} (h : first.Lockstep i j second) :
      SameResult i j (.error fault first) (.error fault second)

/-- An action that hidden state makes no difference to. -/
structure Blind (action : Exec β α) : Prop where
  run {i j : Nat} {first second : Machine β} :
    first.Lockstep i j second → SameResult i j (action first) (action second)

namespace Blind

theorem pure (value : α) : Blind (Pure.pure value : Exec β α) where
  run h := .ok h

theorem bind {action : Exec β α} {next : α → Exec β γ} (haction : Blind action)
    (hnext : ∀ value, Blind (next value)) : Blind (action >>= next) where
  run {i j first second} h := by
    show SameResult i j (EStateM.bind action next first) (EStateM.bind action next second)
    unfold EStateM.bind
    have hfirst := haction.run h
    generalize action first = firstResult at hfirst
    generalize action second = secondResult at hfirst
    cases hfirst with
    | ok hmiddle => exact (hnext _).run hmiddle
    | error hlast => exact .error hlast

theorem map (change : α → γ) {action : Exec β α} (haction : Blind action) :
    Blind (change <$> action) := by
  rw [map_eq_pure_bind]
  exact haction.bind fun value => .pure (change value)

/-! ### Registers -/

/-- Going on with what the processor contains is blind if alike processors make it go on in the same
way. -/
theorem inspect {next : Cpu → Exec β α}
    (hcongr : ∀ {first second : Cpu}, first.Alike second → next first = next second)
    (hnext : ∀ cpu, Blind (next cpu)) : Blind (cpu >>= next) where
  run h := by
    rw [cpu_bind, cpu_bind, hcongr h.cpu]
    exact (hnext _).run h

theorem modifyCpu {change : Cpu → Cpu} (charged : Nat)
    (halike : ∀ {first second : Cpu}, first.Alike second → (change first).Alike (change second))
    (hcycles : ∀ cpu, (change cpu).cycles = cpu.cycles + charged) :
    Blind (Exec.modifyCpu change : Exec β Unit) where
  run {i j first second} h := by
    obtain ⟨before, hfirst, hsecond⟩ := h.cycles_eq
    refine .ok ⟨halike h.cpu, h.bus_eq, h.events_eq, before + charged, ?_, ?_⟩
    · show (change first.cpu).cycles = _
      rw [hcycles, hfirst, Nat.add_assoc]
    · show (change second.cpu).cycles = _
      rw [hcycles, hsecond, Nat.add_assoc]

theorem setData (n : Fin 8) (value : UInt32) : Blind (Exec.setData n value : Exec β Unit) :=
  modifyCpu 0 (fun h => { h with data_eq := by rw [h.data_eq] }) fun _ => rfl

theorem setAddress (n : Fin 8) (value : UInt32) : Blind (Exec.setAddress n value : Exec β Unit) :=
  modifyCpu 0 (fun h => { h with address_eq := by rw [h.address_eq] }) fun _ => rfl

theorem setFp (n : Fin 8) (value : Double) : Blind (Exec.setFp n value : Exec β Unit) :=
  modifyCpu 0 (fun h => { h with fp_eq := by rw [h.fp_eq] }) fun _ => rfl

theorem report (result : Double) : Blind (Exec.report result : Exec β Unit) :=
  modifyCpu 0 (fun h => { h with fpsr_eq := by rw [h.fpsr_eq] }) fun _ => rfl

theorem charge (cycles : Nat) : Blind (Exec.charge cycles : Exec β Unit) :=
  modifyCpu cycles (fun h => { h with }) fun _ => rfl

theorem putControl (register : ControlRegister) (value : UInt32) :
    Blind (Exec.modifyCpu (register.put value) : Exec β Unit) := by
  cases register with
  | fpsr => exact modifyCpu 0 (fun h => { h with fpsr_eq := rfl }) fun _ => rfl
  | fpcr | fpiar => exact modifyCpu 0 (fun h => { h with }) fun _ => rfl

theorem address (width : Width) (place : Reference) :
    Blind (Exec.address width place : Exec β UInt32) := by
  cases place with
  | indirect n => exact inspect (fun h => by rw [h.address_eq]) fun _ => .pure _
  | postIncrement n | preDecrement n =>
    exact inspect (fun h => by rw [h.address_eq]) fun _ => (setAddress _ _).bind fun _ => .pure _
  | displaced n displacement => exact inspect (fun h => by rw [h.address_eq]) fun _ => .pure _
  | indexed n index =>
    exact inspect (fun h => by rw [h.address_eq, Index.offset_congr h]) fun _ => .pure _
  | absolute address => exact .pure _

/-! ### The bus -/

theorem answered (answer : β → Option α) (event : Option α → BusEvent) :
    Blind (fun machine : Machine β =>
      Exec.answered (answer machine.bus) (machine.record (event (answer machine.bus)))) where
  run {i j first second} h := by
    rw [h.bus_eq]
    cases answer second.bus with
    | none => exact .error (h.record _)
    | some value => exact .ok (h.record _)

theorem written (answer : β → Option β) (size : AccessSize) (address value : UInt32) :
    Blind (fun machine : Machine β =>
      Exec.written size address value (answer machine.bus) machine) where
  run {i j first second} h := by
    rw [h.bus_eq]
    cases answer second.bus with
    | none => exact .error (h.record _)
    | some bus => exact .ok { h.record _ with bus_eq := rfl }

variable [Bus β]

theorem readByte (address : UInt32) : Blind (Exec.readByte address : Exec β UInt8) :=
  answered (fun bus => Bus.read8 bus address)
    fun answer => .read .data .byte address (answer.map UInt8.toUInt32)

theorem readWord (address : UInt32) : Blind (Exec.readWord address : Exec β UInt16) :=
  answered (fun bus => Bus.read16 bus address)
    fun answer => .read .data .word address (answer.map UInt16.toUInt32)

theorem readLong (address : UInt32) : Blind (Exec.readLong address : Exec β UInt32) :=
  answered (fun bus => Bus.read32 bus address) fun answer => .read .data .long address answer

theorem writeByte (address : UInt32) (value : UInt8) :
    Blind (Exec.writeByte address value : Exec β Unit) :=
  written (fun bus => Bus.write8 bus address value) _ _ _

theorem writeWord (address : UInt32) (value : UInt16) :
    Blind (Exec.writeWord address value : Exec β Unit) :=
  written (fun bus => Bus.write16 bus address value) _ _ _

theorem writeLong (address value : UInt32) : Blind (Exec.writeLong address value : Exec β Unit) :=
  written (fun bus => Bus.write32 bus address value) _ _ _

theorem traceBranch : Blind (Exec.traceBranch : Exec β Unit) where
  run h := .ok { h.record .branch with bus_eq := by rw [h.bus_eq] }

/-! ### Operands -/

theorem readMemory (width : Width) (address : UInt32) :
    Blind (Exec.readMemory width address : Exec β UInt64) := by
  cases width with
  | byte => exact (readByte _).bind fun _ => .pure _
  | word => exact (readWord _).bind fun _ => .pure _
  | long => exact (readLong _).bind fun _ => .pure _
  | quad | extended => exact (readLong _).bind fun _ => (readLong _).bind fun _ => .pure _

theorem writeMemory (width : Width) (address : UInt32) (value : UInt64) :
    Blind (Exec.writeMemory width address value : Exec β Unit) := by
  cases width with
  | byte => exact writeByte _ _
  | word => exact writeWord _ _
  | long => exact writeLong _ _
  | quad => exact (writeLong _ _).bind fun _ => writeLong _ _
  | extended => exact (writeLong _ _).bind fun _ => (writeLong _ _).bind fun _ => writeLong _ _

theorem readOperand (width : Width) (operand : Operand) :
    Blind (Exec.readOperand width operand : Exec β UInt64) := by
  cases operand with
  | dataRegister => exact inspect (fun h => by rw [h.data_eq]) fun _ => .pure _
  | immediate => exact .pure _
  | memory => exact (address _ _).bind fun _ => readMemory _ _

theorem writeDestination (width : Width) (value : UInt64) (destination : Destination) :
    Blind (Exec.writeDestination width value destination : Exec β Unit) := by
  cases destination with
  | dataRegister => exact setData _ _
  | memory => exact (address _ _).bind fun _ => writeMemory _ _ _

theorem readSource (source : Source) : Blind (Exec.readSource source : Exec β Double) := by
  cases source with
  | register => exact inspect (fun h => by rw [h.fp_eq]) fun _ => .pure _
  | operand => exact (readOperand _ _).map _

/-! ### Instructions -/

theorem arithmetic (opmode : Opmode) (source : Source) (destination : Fin 8) :
    Blind (Exec.arithmetic opmode source destination : Exec β Unit) := by
  refine (readSource source).bind fun value => inspect (fun h => by rw [h.fp_eq]) fun cpu => ?_
  cases opmode with
  | move | div => exact (setFp _ _).bind fun _ => charge _
  | cmp | tst => exact (report _).bind fun _ => charge _
  | _ => exact (setFp _ _).bind fun _ => (report _).bind fun _ => charge _

theorem storeMultiple (base : Fin 8) (registers : List (Fin 8)) :
    Blind (Exec.storeMultiple base registers : Exec β Unit) := by
  induction registers with
  | nil => exact .pure _
  | cons n rest ih =>
    exact (address _ _).bind fun _ => inspect (fun h => by rw [h.fp_eq]) fun _ =>
      (writeMemory _ _ _).bind fun _ => (charge _).bind fun _ => ih

theorem loadMultiple (base : Fin 8) (registers : List (Fin 8)) :
    Blind (Exec.loadMultiple base registers : Exec β Unit) := by
  induction registers with
  | nil => exact .pure _
  | cons n rest ih =>
    exact (address _ _).bind fun _ => (readMemory _ _).bind fun _ => (setFp _ _).bind fun _ =>
      (charge _).bind fun _ => ih

theorem branch (condition : Condition) (target : UInt32) :
    Blind (Exec.branch condition target : Exec β Unit) := by
  have hjump : Blind (Exec.modifyCpu fun cpu => { cpu with pc := target } : Exec β Unit) :=
    modifyCpu 0 (fun h => { h with pc_eq := rfl }) fun _ => rfl
  refine inspect (fun h => by rw [h.fpsr_eq]) fun cpu => ?_
  by_cases h : condition.holds cpu.fpsr
  · simp only [h, if_true]
    exact traceBranch.bind fun _ => hjump.bind fun _ => charge _
  · simp only [h]
    exact charge _

end Blind

variable [Bus β]

/-- Hidden state makes no difference to an instruction that does not reveal it. -/
theorem blind_execute {instruction : Instruction} (h : ¬ instruction.RevealsControl) :
    Blind (execute instruction : Exec β Unit) := by
  cases instruction with
  | arithmetic => exact .arithmetic _ _ _
  | store =>
    exact .inspect (fun h => by rw [h.fp_eq]) fun _ =>
      (Blind.writeDestination _ _ _).bind fun _ => .charge _
  | loadControl =>
    exact (Blind.readOperand _ _).bind fun _ => (Blind.putControl _ _).bind fun _ => .charge _
  | storeControl register destination =>
    -- The status is no hidden register, and the other two are ruled out.
    obtain rfl : register = .fpsr := Decidable.not_not.mp h
    exact .inspect (fun h => by simp only [ControlRegister.get, h.fpsr_eq]) fun _ =>
      (Blind.writeDestination _ _ _).bind fun _ => .charge _
  | storeMultiple => exact .storeMultiple _ _
  | loadMultiple => exact .loadMultiple _ _
  | branch => exact .branch _ _
  | saveFrame => exact .writeDestination _ _ _
  | restoreFrame => exact (Blind.readOperand _ _).map _

end Exec

namespace Machine

variable [Bus β] {first second : Machine β}

/-- Fetches of the same instruction, or two that fail alike. -/
inductive SameFetch : EStateM.Result Fault InstructionStream Instruction →
    EStateM.Result Fault InstructionStream Instruction → Prop
  | ok {instruction : Instruction} {stream : InstructionStream} :
      SameFetch (.ok instruction stream) (.ok instruction stream)
  | error {fault : Fault} {first second : InstructionStream} (hpc : first.pc = second.pc)
      (hevents : first.events = second.events) :
      SameFetch (.error fault first) (.error fault second)

theorem sameFetch_of_alike (hcpu : first.cpu.Alike second.cpu) (hbus : first.bus = second.bus) :
    SameFetch first.fetch second.fetch := by
  unfold fetch
  have hpc : (first.stream first.cpu.pc).pc = (second.stream second.cpu.pc).pc := hcpu.pc_eq
  rw [hbus]
  cases hread : Bus.read16 second.bus (second.stream second.cpu.pc).pc with
  | none =>
    -- Without an opcode the old instruction register stays, but nothing has looked at it.
    rw [Fetch.instruction_of_refusal (hpc ▸ hread), Fetch.instruction_of_refusal hread]
    exact .error hpc (by simp only [InstructionStream.afterRefusal, hpc]; rfl)
  | some opcode =>
    have hafter : (first.stream first.cpu.pc).afterOpcode opcode
        = (second.stream second.cpu.pc).afterOpcode opcode := by
      simp only [InstructionStream.afterOpcode, InstructionStream.afterWord, stream, hcpu.pc_eq]
    rw [Fetch.instruction_of_read (hpc ▸ hread), Fetch.instruction_of_read hread, hafter]
    cases Fetch.rest opcode second.bus _ with
    | ok => exact .ok
    | error => exact .error rfl rfl

/-- Two machines whose next steps do the same. -/
structure SameStep (first second : Machine β) : Prop where
  fetched_eq : first.fetched = second.fetched
  fault_eq : first.step.fault = second.step.fault
  events_eq : first.step.machine.events = second.step.machine.events
  bus_eq : first.step.machine.bus = second.step.machine.bus
  cpu : first.step.machine.cpu.Alike second.step.machine.cpu
  cycles_eq : ∃ charged, first.step.machine.cpu.cycles = first.cpu.cycles + charged ∧
    second.step.machine.cpu.cycles = second.cpu.cycles + charged

theorem sameStep_of_lockstep {fault : Option Fault} {firstLast secondLast : Machine β}
    (hfetched : first.fetched = second.fetched) (hfirst : first.step = ⟨fault, firstLast⟩)
    (hsecond : second.step = ⟨fault, secondLast⟩)
    (h : firstLast.Lockstep first.cpu.cycles second.cpu.cycles secondLast) :
    SameStep first second := by
  refine ⟨hfetched, ?_, ?_, ?_, ?_, ?_⟩ <;> rw [hfirst, hsecond]
  · exact h.events_eq
  · exact h.bus_eq
  · exact h.cpu
  · exact h.cycles_eq

omit [Bus β] in
theorem Lockstep.stop {i j : Nat} (h : first.Lockstep i j second) :
    first.stop.Lockstep i j second.stop :=
  { h with cpu := { h.cpu with } }

omit [Bus β] in
theorem lockstep_withStream (hcpu : first.cpu.Alike second.cpu) (hbus : first.bus = second.bus)
    {firstStream secondStream : InstructionStream} (hpc : firstStream.pc = secondStream.pc)
    (hevents : firstStream.events = secondStream.events) :
    (first.withStream firstStream).Lockstep first.cpu.cycles second.cpu.cycles
      (second.withStream secondStream) :=
  ⟨{ hcpu with pc_eq := hpc }, hbus, hevents, 0, rfl, rfl⟩

/-- What one step preserves. -/
theorem sameStep_of_alike (hcpu : first.cpu.Alike second.cpu) (hbus : first.bus = second.bus)
    (hquiet : ∀ instruction ∈ first.fetched, ¬ instruction.RevealsControl) :
    SameStep first second := by
  have hsame := sameFetch_of_alike hcpu hbus
  generalize hfirst : first.fetch = firstFetch at hsame
  generalize hsecond : second.fetch = secondFetch at hsame
  cases hsame with
  | error hpc hevents =>
    have hfetched : first.fetched = second.fetched := by simp only [fetched, hfirst, hsecond]
    exact sameStep_of_lockstep hfetched (step_of_fetch_error hfirst) (step_of_fetch_error hsecond)
      (lockstep_withStream hcpu hbus hpc hevents).stop
  | @ok instruction stream =>
    have hfetched : first.fetched = second.fetched := by simp only [fetched, hfirst, hsecond]
    have hblind : (Exec.execute instruction : Exec β Unit).Blind :=
      Exec.blind_execute (hquiet instruction (fetched_eq_some_iff.mpr ⟨stream, hfirst⟩))
    have hstart : (first.withStream stream).Lockstep first.cpu.cycles second.cpu.cycles
        (second.withStream stream) := lockstep_withStream hcpu hbus rfl rfl
    have hresult := hblind.run hstart
    generalize hfirstRun : Exec.execute instruction (first.withStream stream) = firstRun at hresult
    generalize hsecondRun : Exec.execute instruction (second.withStream stream) = secondRun
      at hresult
    cases hresult with
    | ok hlast =>
      exact sameStep_of_lockstep hfetched (step_of_execute_ok hfirst hfirstRun)
        (step_of_execute_ok hsecond hsecondRun) hlast
    | error hlast =>
      exact sameStep_of_lockstep hfetched (step_of_execute_error hfirst hfirstRun)
        (step_of_execute_error hsecond hsecondRun) hlast.stop

/-- What a run preserves, as long as none of its instructions reveals hidden state. -/
theorem alike_after {k : Nat} (hcpu : first.cpu.Alike second.cpu) (hbus : first.bus = second.bus)
    (hquiet : ∀ i < k, ∀ instruction ∈ (first.after i).fetched, ¬ instruction.RevealsControl) :
    (first.after k).cpu.Alike (second.after k).cpu ∧
      (first.after k).bus = (second.after k).bus := by
  induction k with
  | zero => exact ⟨hcpu, hbus⟩
  | succ k ih =>
    obtain ⟨hcpu, hbus⟩ := ih fun i hi => hquiet i (Nat.lt_succ_of_lt hi)
    have hstep := sameStep_of_alike hcpu hbus (hquiet k (Nat.lt_succ_self k))
    exact ⟨hstep.cpu, hstep.bus_eq⟩

/-- Two machines that differ in nothing but hidden state take the same steps, up to the first that
moves a hidden control register out of the FPU. -/
theorem sameStep_after {k : Nat} (hcpu : first.cpu.Alike second.cpu)
    (hbus : first.bus = second.bus)
    (hquiet : ∀ i ≤ k, ∀ instruction ∈ (first.after i).fetched, ¬ instruction.RevealsControl) :
    SameStep (first.after k) (second.after k) := by
  obtain ⟨hcpu, hbus⟩ := alike_after hcpu hbus fun i hi => hquiet i (Nat.le_of_lt hi)
  exact sameStep_of_alike hcpu hbus (hquiet k (Nat.le_refl k))

/-- A machine about to load FP0 and the control register, to store the status, and to move the
instruction address register to D0. -/
def aboutToReveal : Machine FlatMemory where
  cpu := { pc := 0x400, address := Bank.fill 0x2000 }
  bus := .ofProgram 0x10000 0x400
    [0xF2, 0x19, 0x54, 0x00, 0xF2, 0x00, 0x90, 0x00, 0xF2, 0x21, 0xA8, 0x00, 0xF2, 0x00, 0xA4, 0x00]

/-- The same machine with other hidden state. -/
def hiddenApart : Machine FlatMemory :=
  aboutToReveal.mapCpu fun cpu =>
    { cpu with ir := 0x4AFC, fpcr := 0x30, fpiar := 0x1234, cycles := 1000, stopped := true }

/-- Three steps do the same, and the fourth tells the two machines apart. -/
theorem sameStep_after_store_status :
    SameStep (aboutToReveal.after 2) (hiddenApart.after 2) ∧
      (aboutToReveal.after 4).cpu.data ≠ (hiddenApart.after 4).cpu.data := by
  have halike : aboutToReveal.cpu.Alike hiddenApart.cpu := ⟨rfl, rfl, rfl, rfl, rfl⟩
  have hquiet : ∀ i ≤ 2, ∀ instruction ∈ (aboutToReveal.after i).fetched,
      ¬ instruction.RevealsControl := by
    decide +kernel
  exact ⟨sameStep_after halike rfl hquiet, by decide +kernel⟩

end Machine

end M68Fpu
