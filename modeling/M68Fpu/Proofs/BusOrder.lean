import M68Fpu.Bus.Sparse
import M68Fpu.Proofs.Completion
import M68Fpu.Proofs.EncodedInstruction

/-!
# The order of bus uses

A step uses the bus in a fixed order: first it reads the instruction, then it reads an operand or
writes one, or announces a branch, but no two of these (`Exec.emits_execute`). So no read follows a
write within a step, whether or not it ends in a fault.

The reads of the instruction cover each of its bytes once, in ascending order, and no others
(`Machine.consumes_step`), and unless a branch is taken the program counter ends behind them.
-/

namespace M68Fpu

/-! ## Kinds of events -/

namespace BusEvent

/-- Whether an event is a read of the instruction stream. -/
def IsFetch : BusEvent → Prop
  | read space _ _ _ => space = .program
  | write _ _ _ _ | branch => False

/-- Whether an event is a read of an operand. -/
def IsDataRead : BusEvent → Prop
  | read space _ _ _ => space = .data
  | write _ _ _ _ | branch => False

def IsRead : BusEvent → Prop
  | read _ _ _ _ => True
  | write _ _ _ _ | branch => False

def IsWrite : BusEvent → Prop
  | write _ _ _ _ => True
  | read _ _ _ _ | branch => False

/-- The addresses of the bytes that an event reads from the instruction stream. -/
def programBytes : BusEvent → List UInt32
  | read .program size address _ =>
    (List.range (size.bits / 8)).map fun i => address + UInt32.ofNat i
  | _ => []

theorem IsDataRead.not_isFetch {event : BusEvent} (h : event.IsDataRead) : ¬ event.IsFetch := by
  cases event with
  | read space => exact fun hfetch => nomatch (show Space.data = .program from h ▸ hfetch)
  | write | branch => exact h.elim

theorem IsWrite.not_isRead {event : BusEvent} (h : event.IsWrite) : ¬ event.IsRead := by
  cases event with
  | write => exact id
  | read | branch => exact h.elim

theorem IsFetch.not_isWrite {event : BusEvent} (h : event.IsFetch) : ¬ event.IsWrite := by
  cases event with
  | read => exact id
  | write | branch => exact h.elim

end BusEvent

/-! ## The bytes of the instruction -/

open InstructionStream (Covers fetchedBytes fetchedBytes_append)

/-- Reads that cover a stretch of the instruction stream read its bytes one by one. -/
theorem InstructionStream.Covers.programBytes_eq {first last : UInt32} {events : List BusEvent}
    (h : Covers first events last) :
    events.flatMap BusEvent.programBytes
      = (List.range (fetchedBytes events)).map fun i => first + UInt32.ofNat i := by
  induction h with
  | nil => rfl
  | @snoc events last h size value ih =>
    have hsize : fetchedBytes [.read .program size last (some value)] = size.bits / 8 := rfl
    rw [List.flatMap_append, ih, fetchedBytes_append, hsize, List.range_add, List.map_append,
      List.map_map, List.flatMap_singleton, h.last_eq]
    simp only [BusEvent.programBytes, add_ofNat_add_ofNat, Function.comp_def]

/-! ## Execution -/

namespace Exec

variable {β α γ : Type}

/-- An action that records nothing but events of one kind, however it ends. -/
structure Emits (allowed : BusEvent → Prop) (action : Exec β α) : Prop where
  ok {machine last : Machine β} {value : α} :
    action machine = .ok value last → machine.Adds allowed last
  error {machine last : Machine β} {fault : Fault} :
    action machine = .error fault last → machine.Adds allowed last

namespace Emits

variable {allowed : BusEvent → Prop}

theorem pure (value : α) : Emits allowed (Pure.pure value : Exec β α) where
  ok h := by cases h; exact .of_events_eq rfl
  error h := by cases h

theorem bind {action : Exec β α} {next : α → Exec β γ} (haction : Emits allowed action)
    (hnext : ∀ value, Emits allowed (next value)) : Emits allowed (action >>= next) where
  ok h := by
    obtain ⟨first, middle, hfirst, hsecond⟩ := bind_eq_ok_iff.mp h
    exact (haction.ok hfirst).trans ((hnext first).ok hsecond)
  error h := by
    rcases bind_eq_error_iff.mp h with hfirst | ⟨first, middle, hfirst, hsecond⟩
    · exact haction.error hfirst
    · exact (haction.ok hfirst).trans ((hnext first).error hsecond)

theorem map (change : α → γ) {action : Exec β α} (haction : Emits allowed action) :
    Emits allowed (change <$> action) := by
  rw [map_eq_pure_bind]
  exact haction.bind fun value => .pure (change value)

theorem cpu : Emits allowed (Exec.cpu : Exec β Cpu) where
  ok h := by cases h; exact .of_events_eq rfl
  error h := by cases h

theorem modifyCpu (change : Cpu → Cpu) : Emits allowed (Exec.modifyCpu change : Exec β Unit) where
  ok h := by cases h; exact .of_events_eq rfl
  error h := by cases h

theorem address (width : Width) (place : Reference) :
    Emits allowed (Exec.address width place : Exec β UInt32) where
  ok h := by rw [address_eq] at h; cases h; exact .of_events_eq rfl
  error h := by rw [address_eq] at h; cases h

/-- A read that has been recorded. -/
theorem answered {answer : Machine β → Option α} {event : Machine β → BusEvent}
    (hevent : ∀ machine, allowed (event machine)) :
    Emits allowed
      (fun machine => Exec.answered (answer machine) (machine.record (event machine))) where
  ok {machine _ _} h := by
    obtain ⟨-, rfl⟩ := answered_eq_ok_iff.mp h
    exact .single rfl (hevent machine)
  error {machine _ _} h := by
    obtain ⟨-, -, rfl⟩ := answered_eq_error_iff.mp h
    exact .single rfl (hevent machine)

/-! ### Reading -/

theorem readByte [Bus β] (address : UInt32) :
    Emits BusEvent.IsDataRead (Exec.readByte address : Exec β UInt8) :=
  answered fun _ => rfl

theorem readWord [Bus β] (address : UInt32) :
    Emits BusEvent.IsDataRead (Exec.readWord address : Exec β UInt16) :=
  answered fun _ => rfl

theorem readLong [Bus β] (address : UInt32) :
    Emits BusEvent.IsDataRead (Exec.readLong address : Exec β UInt32) :=
  answered fun _ => rfl

theorem readMemory [Bus β] (width : Width) (address : UInt32) :
    Emits BusEvent.IsDataRead (Exec.readMemory width address : Exec β UInt64) := by
  cases width with
  | byte => exact (readByte _).bind fun _ => .pure _
  | word => exact (readWord _).bind fun _ => .pure _
  | long => exact (readLong _).bind fun _ => .pure _
  | quad | extended => exact (readLong _).bind fun _ => (readLong _).bind fun _ => .pure _

theorem readOperand [Bus β] (width : Width) (operand : Operand) :
    Emits BusEvent.IsDataRead (Exec.readOperand width operand : Exec β UInt64) := by
  cases operand with
  | dataRegister => exact cpu.bind fun _ => .pure _
  | immediate => exact .pure _
  | memory => exact (address _ _).bind fun _ => readMemory _ _

theorem readSource [Bus β] (source : Source) :
    Emits BusEvent.IsDataRead (Exec.readSource source : Exec β Double) := by
  cases source with
  | register => exact cpu.bind fun _ => .pure _
  | operand => exact (readOperand _ _).map _

theorem loadMultiple [Bus β] (base : Fin 8) (registers : List (Fin 8)) :
    Emits BusEvent.IsDataRead (Exec.loadMultiple base registers : Exec β Unit) := by
  induction registers with
  | nil => exact .pure _
  | cons n rest ih =>
    exact (address _ _).bind fun _ => (readMemory _ _).bind fun _ => (modifyCpu _).bind fun _ =>
      (modifyCpu _).bind fun _ => ih

/-! ### Writing -/

theorem writeLong [Bus β] (address value : UInt32) :
    Emits BusEvent.IsWrite (Exec.writeLong address value : Exec β Unit) where
  ok h := by
    obtain ⟨bus, -, rfl⟩ := written_eq_ok_iff.mp h
    exact .single rfl trivial
  error h := by
    obtain ⟨-, -, rfl⟩ := written_eq_error_iff.mp h
    exact .single rfl trivial

theorem writeLongs [Bus β] (address : UInt32) (values : List UInt32) :
    Emits BusEvent.IsWrite (Exec.writeLongs address values : Exec β Unit) := by
  induction values generalizing address with
  | nil => exact .pure _
  | cons value rest ih => exact (writeLong _ _).bind fun _ => ih _

theorem writeDestination [Bus β] {width : Width} (hwide : 4 ≤ width.bytes) (value : UInt64)
    (destination : Destination) :
    Emits BusEvent.IsWrite (Exec.writeDestination width value destination : Exec β Unit) := by
  cases destination with
  | dataRegister => exact modifyCpu _
  | memory =>
    refine (address _ _).bind fun _ => ?_
    rw [writeMemory_eq_writeLongs hwide]
    exact writeLongs _ _

theorem storeMultiple [Bus β] (base : Fin 8) (registers : List (Fin 8)) :
    Emits BusEvent.IsWrite (Exec.storeMultiple base registers : Exec β Unit) := by
  induction registers with
  | nil => exact .pure _
  | cons n rest ih =>
    refine (address _ _).bind fun _ => cpu.bind fun _ => ?_
    rw [writeMemory_eq_writeLongs (by decide)]
    exact (writeLongs _ _).bind fun _ => (modifyCpu _).bind fun _ => ih

end Emits

end Exec

/-- The kind of the events that executing an instruction records: it reads an operand, writes one or
announces a branch. -/
def Instruction.Permits : Instruction → BusEvent → Prop
  | .arithmetic .. | .loadControl .. | .loadMultiple .. | .restoreFrame .. => BusEvent.IsDataRead
  | .store .. | .storeControl .. | .storeMultiple .. | .saveFrame .. => BusEvent.IsWrite
  | .branch .. => (· = .branch)

namespace Exec

variable {β : Type} [Bus β]

theorem emits_execute (instruction : Instruction) :
    Emits instruction.Permits (execute instruction : Exec β Unit) := by
  cases instruction with
  | arithmetic opmode source destination =>
    refine (Emits.readSource source).bind fun value => Emits.cpu.bind fun cpu => ?_
    cases opmode with
    | move | div | cmp | tst => exact (Emits.modifyCpu _).bind fun _ => .modifyCpu _
    | _ =>
      exact (Emits.modifyCpu _).bind fun _ => (Emits.modifyCpu _).bind fun _ => .modifyCpu _
  | store format =>
    exact Emits.cpu.bind fun _ =>
      (Emits.writeDestination (by cases format <;> decide) _ _).bind fun _ => .modifyCpu _
  | loadControl =>
    exact (Emits.readOperand _ _).bind fun _ => (Emits.modifyCpu _).bind fun _ => .modifyCpu _
  | storeControl =>
    exact Emits.cpu.bind fun _ =>
      (Emits.writeDestination (by decide) _ _).bind fun _ => .modifyCpu _
  | storeMultiple => exact .storeMultiple _ _
  | loadMultiple => exact .loadMultiple _ _
  | branch condition target =>
    refine Emits.cpu.bind fun cpu => ?_
    have htrace : Emits (Instruction.branch condition target).Permits
        (traceBranch : Exec β Unit) := by
      constructor
      · intro machine last value h
        cases h
        exact .single rfl rfl
      · intro machine last fault h
        cases h
    by_cases h : condition.holds cpu.fpsr
    · simp only [h, if_true]
      exact htrace.bind fun _ => (Emits.modifyCpu _).bind fun _ => .modifyCpu _
    · simp only [h]
      exact .modifyCpu _
  | saveFrame => exact .writeDestination (by decide) _ _
  | restoreFrame => exact (Emits.readOperand _ _).map _

end Exec

/-! ## Sequences of events -/

theorem Instruction.Permits.not_isFetch {instruction : Instruction} {event : BusEvent}
    (h : instruction.Permits event) : ¬ event.IsFetch := by
  cases instruction with
  | arithmetic | loadControl | loadMultiple | restoreFrame => exact BusEvent.IsDataRead.not_isFetch h
  | store | storeControl | storeMultiple | saveFrame =>
    exact fun hfetch => hfetch.not_isWrite h
  | branch =>
    obtain rfl : event = .branch := h
    exact id

/-- An instruction that writes reads no operand. -/
theorem Instruction.Permits.not_isRead {instruction : Instruction} {earlier later : BusEvent}
    (hearlier : instruction.Permits earlier) (hlater : instruction.Permits later)
    (hwrite : earlier.IsWrite) : ¬ later.IsRead := by
  cases instruction with
  | arithmetic | loadControl | loadMultiple | restoreFrame =>
    cases earlier with
    | write => exact hearlier.elim
    | read | branch => exact hwrite.elim
  | store | storeControl | storeMultiple | saveFrame => exact BusEvent.IsWrite.not_isRead hlater
  | branch =>
    obtain rfl : later = .branch := hlater
    exact id

/-- What a step records: the fetches of an instruction, and then what the instruction permits. -/
structure OrderedEvents (instruction : Instruction) (fetches accesses : List BusEvent) : Prop where
  isFetch : ∀ event ∈ fetches, event.IsFetch
  permits : ∀ event ∈ accesses, instruction.Permits event

namespace OrderedEvents

variable {instruction : Instruction} {fetches accesses : List BusEvent}

theorem no_read_behind_write (h : OrderedEvents instruction fetches accesses) :
    (fetches ++ accesses).Pairwise fun earlier later => earlier.IsWrite → ¬ later.IsRead := by
  refine List.pairwise_append.mpr ⟨?_, ?_, fun earlier hearlier later hlater hwrite => ?_⟩
  · exact List.pairwise_of_forall_mem_list fun earlier hearlier later _ hwrite =>
      absurd hwrite (h.isFetch earlier hearlier).not_isWrite
  · exact List.pairwise_of_forall_mem_list fun earlier hearlier later hlater =>
      (h.permits earlier hearlier).not_isRead (h.permits later hlater)
  · exact absurd hwrite (h.isFetch earlier hearlier).not_isWrite

theorem fetches_first (h : OrderedEvents instruction fetches accesses) :
    (fetches ++ accesses).Pairwise fun earlier later => later.IsFetch → earlier.IsFetch := by
  refine List.pairwise_append.mpr ⟨?_, ?_, fun earlier hearlier later hlater hfetch => ?_⟩
  · exact List.pairwise_of_forall_mem_list fun earlier hearlier later _ _ =>
      h.isFetch earlier hearlier
  · exact List.pairwise_of_forall_mem_list fun earlier _ later hlater hfetch =>
      absurd hfetch (h.permits later hlater).not_isFetch
  · exact h.isFetch earlier hearlier

theorem programBytes_eq (h : OrderedEvents instruction fetches accesses) :
    (fetches ++ accesses).flatMap BusEvent.programBytes
      = fetches.flatMap BusEvent.programBytes := by
  have hnone : accesses.flatMap BusEvent.programBytes = [] := by
    refine List.flatMap_eq_nil_iff.mpr fun event hevent => ?_
    have hfetch := (h.permits event hevent).not_isFetch
    cases event with
    | read space =>
      cases space with
      | program => exact absurd rfl hfetch
      | data => rfl
    | write | branch => rfl
  rw [List.flatMap_append, hnone, List.append_nil]

end OrderedEvents

/-! ## Steps -/

/-- Only a branch moves the program counter. -/
theorem Exec.Completed.pc_eq {β : Type} [Bus β] {before after : Machine β}
    {instruction : Instruction} (h : Exec.Completed before after instruction)
    (hbranch : ∀ condition target, instruction = .branch condition target →
      condition.holds before.cpu.fpsr = false) : after.cpu.pc = before.cpu.pc := by
  cases h with
  | @arithmetic _ source _ _ _ _ hcpu => rw [hcpu, source.moved_eq]; rfl
  | @store format _ destination value _ _ hcpu =>
    rw [hcpu, destination.written_eq]
    rfl
  | @loadControl register source _ _ _ hcpu =>
    rw [hcpu, source.moved_eq]
    cases register <;> rfl
  | @storeControl _ destination _ _ _ hcpu => rw [hcpu, destination.written_eq]; rfl
  | storeMultiple _ hcpu => rw [hcpu]
  | loadMultiple _ _ hcpu => rw [hcpu]
  | taken hholds => cases hholds.symm.trans (hbranch _ _ rfl)
  | notTaken _ _ hcpu => rw [hcpu]; rfl
  | @saveFrame destination _ hcpu => rw [hcpu, destination.written_eq]
  | @restoreFrame source _ _ _ hcpu => rw [hcpu, source.moved_eq]

namespace Machine

variable {β : Type} [Bus β] {machine : Machine β}

theorem isFetch_of_covers {first last : UInt32} {events : List BusEvent}
    (h : Covers first events last) : ∀ event ∈ events, event.IsFetch := by
  intro event hevent
  obtain ⟨size, address, value, rfl⟩ := h.eq_read hevent
  rfl

/-- A fetch that fails has read the instruction stream and nothing else. -/
theorem isFetch_of_fetch_error {fault : Fault} {stream : InstructionStream}
    (h : machine.fetch = .error fault stream) : ∀ event ∈ stream.events, event.IsFetch := by
  have hrefusal {last : InstructionStream} (size : AccessSize)
      (hcovers : Covers machine.cpu.pc last.events last.pc) :
      ∀ event ∈ (last.afterRefusal size).events, event.IsFetch := by
    intro event hevent
    rcases List.mem_append.mp hevent with hmem | hmem
    · exact isFetch_of_covers hcovers event hmem
    · obtain rfl := List.mem_singleton.mp hmem
      rfl
  rcases Fetch.instruction_error h with ⟨-, rfl⟩ | ⟨opcode, -, ⟨-, rfl⟩ | hfails⟩
  · exact hrefusal .word .nil
  · exact isFetch_of_covers (covers_of_advances .refl)
  · cases hfails with
    | rejected cause hadvances => exact isFetch_of_covers (covers_of_advances hadvances)
    | refusedWord hadvances => exact hrefusal .word (covers_of_advances hadvances)
    | refusedLong hadvances => exact hrefusal .long (covers_of_advances hadvances)

theorem orderedEvents_of_adds {stream : InstructionStream} {instruction : Instruction}
    {last : Machine β} (hfetch : machine.fetch = .ok instruction stream)
    (hadds : (machine.withStream stream).Adds instruction.Permits last) :
    ∃ accesses, last.events = stream.events ++ accesses ∧
      OrderedEvents instruction stream.events accesses := by
  obtain ⟨accesses, hevents, hpermits⟩ := hadds
  exact ⟨accesses, hevents, isFetch_of_covers (covers_of_fetch hfetch), hpermits⟩

/-- The order of the bus uses of a step, whether or not it ends in a fault. -/
theorem orderedEvents_step (machine : Machine β) :
    ∃ instruction fetches accesses, machine.step.machine.events = fetches ++ accesses ∧
      OrderedEvents instruction fetches accesses := by
  have hsteps := steps_step machine
  generalize machine.step = outcome at hsteps
  cases hsteps with
  | @unfetched fault stream hfetch =>
    -- Nothing follows the fetches, which any instruction permits.
    exact ⟨.branch .never 0, stream.events, [], (List.append_nil _).symm,
      isFetch_of_fetch_error hfetch, nofun⟩
  | @completed instruction stream last hfetch hexecute =>
    obtain ⟨accesses, hevents, hordered⟩ :=
      orderedEvents_of_adds hfetch ((Exec.emits_execute instruction).ok hexecute)
    exact ⟨instruction, stream.events, accesses, hevents, hordered⟩
  | @refused instruction stream last hfetch hexecute =>
    obtain ⟨accesses, hevents, hordered⟩ :=
      orderedEvents_of_adds hfetch ((Exec.emits_execute instruction).error hexecute)
    exact ⟨instruction, stream.events, accesses, hevents, hordered⟩

/-- Whether the instruction at the program counter is a branch that is taken. -/
def TakesBranch (machine : Machine β) : Prop :=
  ∃ condition target, machine.fetched = some (.branch condition target) ∧
    condition.holds machine.cpu.fpsr = true

/-- What a step does that has read an instruction of `length` bytes. -/
structure Consumes (length : Nat) (before after : Machine β) : Prop where
  /-- The reads of the instruction stream cover each of its bytes once, in ascending order. -/
  bytes_eq : after.events.flatMap BusEvent.programBytes
    = (List.range length).map fun i => before.cpu.pc + UInt32.ofNat i
  /-- They come before everything else. -/
  fetches_first : after.events.Pairwise fun earlier later => later.IsFetch → earlier.IsFetch
  pc_eq : ¬ before.TakesBranch → after.cpu.pc = before.cpu.pc + UInt32.ofNat length

/-- Within a step, no read follows a write; and a step without a fault has read its instruction byte
by byte and nothing else of the instruction stream. -/
theorem consumes_step (machine : Machine β) :
    (machine.step.machine.events.Pairwise fun earlier later =>
      earlier.IsWrite → ¬ later.IsRead) ∧
    (machine.step.fault = none →
      ∃ opcode second instruction, machine.HasWords opcode second ∧
        machine.fetched = some instruction ∧ Encodes opcode second instruction ∧
        Consumes (encodedLength opcode second) machine machine.step.machine) := by
  constructor
  · obtain ⟨instruction, fetches, accesses, hevents, hordered⟩ := orderedEvents_step machine
    rw [hevents]
    exact hordered.no_read_behind_write
  · intro hfault
    obtain ⟨instruction, stream, hfetch, hexecute⟩ := executed_step hfault
    have hcompleted := Exec.completed_execute hexecute
    have hfetched : machine.fetched = some instruction := fetched_eq_some_iff.mpr ⟨stream, hfetch⟩
    obtain ⟨opcode, second, hwords, hencodes, hlength⟩ := encoded_fetch hfetch
    obtain ⟨accesses, hevents, hordered⟩ :=
      orderedEvents_of_adds hfetch ((Exec.emits_execute instruction).ok hexecute)
    have hcovers := covers_of_fetch hfetch
    refine ⟨opcode, second, instruction, hwords, hfetched, hencodes, ?_, ?_, fun hbranch => ?_⟩
    · rw [hevents, hordered.programBytes_eq, hcovers.programBytes_eq, hlength]
    · rw [hevents]
      exact hordered.fetches_first
    · have hpc := hcompleted.pc_eq fun condition target hinstruction => by
        refine Bool.eq_false_iff.mpr fun hholds => hbranch ⟨condition, target, ?_, hholds⟩
        rw [hfetched, hinstruction]
      rw [hpc, ← hlength]
      exact hcovers.last_eq

/-- A machine about to load an immediate double into FP0, from an instruction that runs over the end
of the address space. -/
def aboutToWrap : Machine SparseMemory where
  cpu := { pc := 0xFFFFFFFC }
  bus := ByteAddressed.storeBytes {} 0xFFFFFFFC
    [0xF2, 0x3C, 0x54, 0x00, 0x3F, 0xF8, 0x00, 0x00, 0x00, 0x00, 0x00, 0x00]

/-- Twelve bytes are read: the opcode, the command word and eight bytes of data. -/
theorem consumes_step_wrapping :
    aboutToWrap.step.fault = none ∧
      Consumes 12 aboutToWrap aboutToWrap.step.machine ∧
      aboutToWrap.step.machine.cpu.pc = 8 := by
  have hfault : aboutToWrap.step.fault = none := by decide +kernel
  obtain ⟨opcode, second, _, ⟨hopcode, hsecond⟩, -, -, hconsumes⟩ :=
    (consumes_step aboutToWrap).2 hfault
  have hread : Bus.read16 aboutToWrap.bus aboutToWrap.cpu.pc = some 0xF23C := by decide +kernel
  obtain rfl := Option.some.inj (hread.symm.trans hopcode)
  have hread' : Bus.read16 aboutToWrap.bus (aboutToWrap.cpu.pc + 2) = some 0x5400 := by
    decide +kernel
  obtain rfl := Option.some.inj (hread'.symm.trans (hsecond ⟨by decide, by decide⟩))
  have hlength : encodedLength 0xF23C 0x5400 = 12 := by decide
  rw [hlength] at hconsumes
  exact ⟨hfault, hconsumes, by decide +kernel⟩

end Machine

end M68Fpu
