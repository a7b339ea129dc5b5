import M68Fpu.Bus.Sparse
import M68Fpu.Proofs.Completion

/-!
# What a refused access leaves behind

A step that ends in a refused access has stopped either in its fetch, and then no more than the
program counter has moved, or at its operand (`Machine.Interruption`). Addresses are worked out
before the operand is used, so the address register of an incremented or decremented place has moved
by then, and by no more than the operand that was refused.

A register list is transferred one slot at a time: where the slot with number `k` is refused, the
first `k` registers of the list have been transferred and the address register has moved by `k + 1`
slots. Both loops are followed by induction on the list (`Exec.aborted_storeMultiple`,
`Exec.aborted_loadMultiple`).
-/

namespace M68Fpu

/-! ## Operands in memory -/

namespace Instruction

/-- The place in memory that an instruction reads its source from, and how wide that is. -/
def memorySource : Instruction → Option (Width × Reference)
  | arithmetic _ (.operand format (.memory place)) _ => some (format.width, place)
  | loadControl _ (.memory place) | restoreFrame (.memory place) => some (.long, place)
  | _ => none

/-- The place in memory that an instruction writes to, how wide that is, and what is written. -/
def memoryTarget (cpu : Cpu) : Instruction → Option (Width × Reference × UInt64)
  | store format source (.memory place) =>
    some (format.width, place, format.encode (cpu.fp.get source))
  | storeControl register (.memory place) => some (.long, place, (register.get cpu).toUInt64)
  | saveFrame (.memory place) => some (.long, place, 0)
  | _ => none

end Instruction

/-! ## Interrupted instructions -/

variable {β : Type} [Bus β]

/-- How far an instruction had come when an access to its operand was refused. -/
inductive Interrupted (before after : Machine β) : Instruction → Prop
  /-- The operand could not be read. -/
  | reading {instruction : Instruction} {width : Width} {place : Reference}
      (hsource : instruction.memorySource = some (width, place))
      (hrefused : Bus.readOperand before.bus width (place.address width before.cpu) = none)
      (hbus : after.bus = before.bus)
      (haddress : after.cpu.address = (place.moved width before.cpu).address)
      (hfp : after.cpu.fp = before.cpu.fp)
      (hcycles : after.cpu.cycles = before.cpu.cycles) : Interrupted before after instruction
  /-- The operand could not be written as a whole, but for its first `count` longs. -/
  | writing {instruction : Instruction} {width : Width} {place : Reference} {value : UInt64}
      {count : Nat}
      (htarget : instruction.memoryTarget before.cpu = some (width, place, value))
      (hbus : Bus.WritesFirst before.bus (place.address width before.cpu) (width.longs value) count
        after.bus)
      (haddress : after.cpu.address = (place.moved width before.cpu).address)
      (hfp : after.cpu.fp = before.cpu.fp)
      (hcycles : after.cpu.cycles = before.cpu.cycles) : Interrupted before after instruction
  /-- Behind `k` whole slots, the first `count` longs of the next one have been written. -/
  | pushing {base n : Fin 8} {registers : List (Fin 8)} {k count : Nat} {pushed : β}
      (hregister : registers[k]? = some n)
      (hslots : Bus.pushSlots before.bus (before.cpu.address.get base)
        ((registers.take k).map fun n => (before.cpu.fp.get n).bits) = some pushed)
      (hbus : Bus.WritesFirst pushed (slotBelow (before.cpu.address.get base) k)
        (Width.extended.longs (before.cpu.fp.get n).bits) count after.bus)
      (haddress : after.cpu.address = before.cpu.address.put base
        (before.cpu.address.get base - UInt32.ofNat (12 * (k + 1))))
      (hfp : after.cpu.fp = before.cpu.fp)
      (hcycles : after.cpu.cycles = before.cpu.cycles + Exec.multipleCycles * k) :
      Interrupted before after (.storeMultiple base registers)
  /-- The first `k` registers have been loaded, and the slot of the next one could not be read. -/
  | popping {base n : Fin 8} {registers : List (Fin 8)} {k : Nat}
      (hregister : registers[k]? = some n)
      (hfp : Bus.popSlots before.bus (before.cpu.address.get base) before.cpu.fp
        (registers.take k) = some after.cpu.fp)
      (hrefused : Bus.readOperand before.bus .extended
        (slotAbove (before.cpu.address.get base) k) = none)
      (hbus : after.bus = before.bus)
      (haddress : after.cpu.address = before.cpu.address.put base
        (before.cpu.address.get base + UInt32.ofNat (12 * (k + 1))))
      (hcycles : after.cpu.cycles = before.cpu.cycles + Exec.multipleCycles * k) :
      Interrupted before after (.loadMultiple base registers)

theorem Interrupted.reaches {before after : Machine β} {instruction : Instruction}
    (h : Interrupted before after instruction) : Bus.Reaches before.bus after.bus := by
  cases h with
  | reading _ _ hbus | popping _ _ _ hbus => rw [hbus]; exact .refl
  | writing _ hbus => exact Bus.reaches_of_writeLongs hbus.accepted
  | pushing _ hslots hbus =>
    exact (Bus.reaches_of_pushSlots hslots).trans (Bus.reaches_of_writeLongs hbus.accepted)

namespace Exec

variable {machine last : Machine β} {fault : Fault}

/-- An instruction that was refused an operand. Apart from address registers, floating-point
registers and cycles, the processor is as before. -/
structure Aborted (instruction : Instruction) (before after : Machine β) : Prop where
  cpu_eq : after.cpu = { before.cpu with
    address := after.cpu.address
    fp := after.cpu.fp
    cycles := after.cpu.cycles }
  records : before.Records after
  interrupted : Interrupted before after instruction

/-! ## Single operands -/

theorem aborted_readOperand {instruction : Instruction} {width : Width} {operand : Operand}
    (hsource : ∀ place, operand = .memory place → instruction.memorySource = some (width, place))
    (h : readOperand width operand machine = .error fault last) :
    Aborted instruction machine last := by
  cases operand with
  | dataRegister n => cases h
  | immediate value => cases h
  | memory place =>
    rw [readOperand, address_bind] at h
    obtain ⟨hrefused, hbus, hcpu, hrecords⟩ := readMemory_error h
    have hmoved : last.cpu
        = { machine.cpu with address := (place.moved width machine.cpu).address } :=
      hcpu.trans (place.moved_eq width machine.cpu)
    refine ⟨?_, hrecords, .reading (hsource place rfl) hrefused hbus ?_ ?_ ?_⟩ <;> rw [hmoved]

theorem aborted_writeDestination {instruction : Instruction} {width : Width} {value : UInt64}
    {destination : Destination} (hwide : 4 ≤ width.bytes)
    (htarget : ∀ place, destination = .memory place →
      instruction.memoryTarget machine.cpu = some (width, place, value))
    (h : writeDestination width value destination machine = .error fault last) :
    Aborted instruction machine last := by
  cases destination with
  | dataRegister n => cases h
  | memory place =>
    rw [writeDestination, address_bind, writeMemory_eq_writeLongs hwide] at h
    obtain ⟨⟨count, hbus⟩, hcpu, hrecords⟩ := writeLongs_error h
    have hmoved : last.cpu
        = { machine.cpu with address := (place.moved width machine.cpu).address } :=
      hcpu.trans (place.moved_eq width machine.cpu)
    refine ⟨?_, hrecords, .writing (htarget place rfl) hbus ?_ ?_ ?_⟩ <;> rw [hmoved]

/-! ## Register lists -/

/-- A push that is aborted behind its first slot has pushed one slot more than the rest of it. -/
theorem Aborted.push {base n : Fin 8} {rest : List (Fin 8)} {middle : Machine β}
    (hcpu : middle.cpu = { machine.cpu with
      address := machine.cpu.address.put base (slotBelow (machine.cpu.address.get base) 0)
      cycles := machine.cpu.cycles + multipleCycles })
    (hrecords : machine.Records middle)
    (hslot : Bus.writeLongs machine.bus (slotBelow (machine.cpu.address.get base) 0)
      (Width.extended.longs (machine.cpu.fp.get n).bits) = some middle.bus)
    (h : Aborted (.storeMultiple base rest) middle last) :
    Aborted (.storeMultiple base (n :: rest)) machine last := by
  have hbase : middle.cpu.address.get base = slotBelow (machine.cpu.address.get base) 0 := by
    rw [hcpu]; exact Bank.get_put_self _ _ _
  have hfp : middle.cpu.fp = machine.cpu.fp := by rw [hcpu]
  refine ⟨by rw [h.cpu_eq, hcpu], hrecords.trans h.records, ?_⟩
  cases h.interrupted with
  | reading hsource => cases hsource
  | writing htarget => cases htarget
  | @pushing _ m _ k count pushed hregister hslots hbus haddress hfp' hcycles =>
    rw [hbase, hfp] at hslots
    rw [hbase, hfp, slotBelow_slotBelow] at hbus
    refine .pushing (k := k + 1) hregister ?_ hbus ?_ (hfp'.trans hfp) ?_
    · exact Option.bind_eq_some_iff.mpr ⟨_, hslot, hslots⟩
    · rw [haddress, hbase, hcpu, slotBelow, sub_ofNat_sub_ofNat, Bank.put_put]
      congr 3
      omega
    · rw [hcycles, hcpu]
      simp only [Nat.mul_succ]
      omega

theorem aborted_storeMultiple {base : Fin 8} {registers : List (Fin 8)}
    (h : storeMultiple base registers machine = .error fault last) :
    Aborted (.storeMultiple base registers) machine last := by
  induction registers generalizing machine with
  | nil => cases h
  | cons n rest ih =>
    rw [storeMultiple, address_bind, cpu_bind, writeMemory_eq_writeLongs (by decide)] at h
    -- The first slot is the one that was refused, or is written whole before the others.
    rcases bind_eq_error_iff.mp h with hwrite | ⟨_, written, hwrite, hrest⟩
    · obtain ⟨⟨count, hbus⟩, hcpu, hrecords⟩ := writeLongs_error hwrite
      refine ⟨by rw [hcpu]; rfl, hrecords, .pushing (k := 0) rfl rfl hbus ?_ ?_ ?_⟩
      · rw [hcpu]; rfl
      · rw [hcpu]; rfl
      · rw [hcpu]; rfl
    · obtain ⟨hslot, hcpu, hrecords⟩ := writeLongs_ok hwrite
      rw [charge, modifyCpu_bind] at hrest
      refine Aborted.push ?_ ?_ ?_ (ih hrest)
      · show { written.cpu with cycles := written.cpu.cycles + multipleCycles } = _
        rw [hcpu]
        rfl
      · exact hrecords
      · exact hslot

theorem Aborted.pop {base n : Fin 8} {rest : List (Fin 8)} {middle : Machine β} {bits : UInt64}
    (hcpu : middle.cpu = { machine.cpu with
      address := machine.cpu.address.put base (slotAbove (machine.cpu.address.get base) 1)
      fp := machine.cpu.fp.put n ⟨bits⟩
      cycles := machine.cpu.cycles + multipleCycles })
    (hrecords : machine.Records middle) (hbus : middle.bus = machine.bus)
    (hslot : Bus.readOperand machine.bus .extended (machine.cpu.address.get base) = some bits)
    (h : Aborted (.loadMultiple base rest) middle last) :
    Aborted (.loadMultiple base (n :: rest)) machine last := by
  have hbase : middle.cpu.address.get base = slotAbove (machine.cpu.address.get base) 1 := by
    rw [hcpu]; exact Bank.get_put_self _ _ _
  have hfp : middle.cpu.fp = machine.cpu.fp.put n ⟨bits⟩ := by rw [hcpu]
  refine ⟨by rw [h.cpu_eq, hcpu], hrecords.trans h.records, ?_⟩
  cases h.interrupted with
  | reading hsource => cases hsource
  | writing htarget => cases htarget
  | @popping _ m _ k hregister hpopped hrefused hbus' haddress hcycles =>
    rw [hbus, hbase, hfp] at hpopped
    rw [hbus, hbase, slotAbove_slotAbove] at hrefused
    refine .popping (k := k + 1) hregister ?_ hrefused (hbus'.trans hbus) ?_ ?_
    · exact Option.bind_eq_some_iff.mpr ⟨bits, hslot, hpopped⟩
    · rw [haddress, hbase, hcpu, slotAbove, add_ofNat_add_ofNat, Bank.put_put]
      congr 3
      omega
    · rw [hcycles, hcpu]
      simp only [Nat.mul_succ]
      omega

theorem aborted_loadMultiple {base : Fin 8} {registers : List (Fin 8)}
    (h : loadMultiple base registers machine = .error fault last) :
    Aborted (.loadMultiple base registers) machine last := by
  induction registers generalizing machine with
  | nil => cases h
  | cons n rest ih =>
    rw [loadMultiple, address_bind] at h
    rcases bind_eq_error_iff.mp h with hread | ⟨bits, read, hread, hrest⟩
    · obtain ⟨hrefused, hbus, hcpu, hrecords⟩ := readMemory_error hread
      refine ⟨by rw [hcpu]; rfl, hrecords, .popping (k := 0) rfl ?_ ?_ hbus ?_ ?_⟩
      · rw [hcpu]; rfl
      · rw [slotAbove_zero]; exact hrefused
      · rw [hcpu]; rfl
      · rw [hcpu]; rfl
    · obtain ⟨hvalue, hbus, hcpu, hrecords⟩ := readMemory_ok hread
      rw [setFp, modifyCpu_bind, charge, modifyCpu_bind] at hrest
      refine Aborted.pop ?_ ?_ ?_ hvalue (ih hrest)
      · show { read.cpu with
          fp := read.cpu.fp.put n ⟨bits⟩
          cycles := read.cpu.cycles + multipleCycles } = _
        rw [hcpu]
        rfl
      · exact hrecords
      · exact hbus

/-! ## Instructions -/

theorem aborted_execute {instruction : Instruction}
    (h : execute instruction machine = .error fault last) : Aborted instruction machine last := by
  cases instruction with
  | arithmetic opmode source destination =>
    rcases bind_eq_error_iff.mp h with hsource | ⟨value, middle, -, hrest⟩
    · cases source with
      | register n => cases hsource
      | operand format operand =>
        rw [readSource, map_eq_pure_bind] at hsource
        rcases bind_eq_error_iff.mp hsource with hread | ⟨_, _, _, hpure⟩
        · exact aborted_readOperand (fun place hplace => by rw [hplace]; rfl) hread
        · cases hpure
    -- Nothing behind the source touches the bus, whatever the operation.
    · cases opmode <;> cases hrest
  | store format source destination =>
    rw [execute, cpu_bind] at h
    rcases bind_eq_error_iff.mp h with hwrite | ⟨_, _, _, hcharge⟩
    · refine aborted_writeDestination ?_ (fun place hplace => by rw [hplace]; rfl) hwrite
      cases format <;> decide
    · cases hcharge
  | loadControl register source =>
    rcases bind_eq_error_iff.mp h with hread | ⟨_, _, _, hrest⟩
    · exact aborted_readOperand (fun place hplace => by rw [hplace]; rfl) hread
    · cases hrest
  | storeControl register destination =>
    rw [execute, cpu_bind] at h
    rcases bind_eq_error_iff.mp h with hwrite | ⟨_, _, _, hcharge⟩
    · exact aborted_writeDestination (by decide) (fun place hplace => by rw [hplace]; rfl) hwrite
    · cases hcharge
  | storeMultiple base registers => exact aborted_storeMultiple h
  | loadMultiple base registers => exact aborted_loadMultiple h
  | branch condition target =>
    rw [execute, branch, cpu_bind] at h
    by_cases hholds : condition.holds machine.cpu.fpsr = true
    · simp only [hholds, if_true] at h; cases h
    · simp only [hholds] at h; cases h
  | saveFrame destination =>
    exact aborted_writeDestination (by decide) (fun place hplace => by rw [hplace]; rfl) h
  | restoreFrame source =>
    rcases bind_eq_error_iff.mp h with hread | ⟨_, _, _, hpure⟩
    · exact aborted_readOperand (fun place hplace => by rw [hplace]; rfl) hread
    · cases hpure

end Exec

/-! ## Steps -/

open InstructionStream (Fails afterRefusal fetchedBytes fetchedBytes_append)

theorem fetchedBytes_of_isData {events : List BusEvent} (h : ∀ event ∈ events, event.IsData) :
    fetchedBytes events = 0 := by
  induction events with
  | nil => rfl
  | cons event rest ih =>
    have hevent := h event List.mem_cons_self
    have hrest := ih fun other hother => h other (List.mem_cons_of_mem event hother)
    cases event with
    | read space => cases hevent; simpa [fetchedBytes, InstructionStream.eventBytes] using hrest
    | write => simpa [fetchedBytes, InstructionStream.eventBytes] using hrest
    | branch => cases hevent

namespace Machine

variable {machine : Machine β}

/-- A step uses the bus in no other way than by writes and traced branches, whether or not it is
completed. -/
theorem reaches_step (machine : Machine β) : Bus.Reaches machine.bus machine.step.machine.bus := by
  have hsteps := steps_step machine
  generalize machine.step = outcome at hsteps
  cases hsteps with
  | unfetched => exact .refl
  | @completed instruction stream last _ hexecute =>
    have hreaches : Bus.Reaches (machine.withStream stream).bus last.bus :=
      (Exec.orderly_execute instruction).ok hexecute
    exact hreaches
  | refused _ hexecute => exact (Exec.aborted_execute hexecute).interrupted.reaches

/-- What a step leaves behind that was refused an access. -/
structure Interruption (before after : Machine β) : Prop where
  data_eq : after.cpu.data = before.cpu.data
  fpcr_eq : after.cpu.fpcr = before.cpu.fpcr
  fpsr_eq : after.cpu.fpsr = before.cpu.fpsr
  fpiar_eq : after.cpu.fpiar = before.cpu.fpiar
  /-- The program counter has moved past the bytes of the instruction that were fetched. -/
  pc_eq : after.cpu.pc = before.cpu.pc + UInt32.ofNat (fetchedBytes after.events)
  no_branch : .branch ∉ after.events
  stopped_eq : after.cpu.stopped = true
  /-- A refused fetch has moved no other register and not touched memory. -/
  unfetched : before.fetched = none →
    after.bus = before.bus ∧ after.cpu.address = before.cpu.address ∧
      after.cpu.fp = before.cpu.fp ∧ after.cpu.cycles = before.cpu.cycles
  /-- A refused operand is that of the instruction. -/
  fetched : ∀ instruction, before.fetched = some instruction → Interrupted before after instruction

/-- A fetch that was refused has read up to the word or long that it did not get. -/
theorem covers_of_refused_fetch {stream : InstructionStream}
    (h : machine.fetch = .error .busError stream) :
    ∃ last size, stream = afterRefusal last size ∧
      InstructionStream.Covers machine.cpu.pc last.events last.pc := by
  rcases Fetch.instruction_error h with ⟨-, hstream⟩ | ⟨opcode, -, ⟨hillegal, -⟩ | hfails⟩
  · exact ⟨_, .word, hstream, .nil⟩
  · cases hillegal
  · cases hfails with
    | refusedWord hadvances => exact ⟨_, .word, rfl, covers_of_advances hadvances⟩
    | refusedLong hadvances => exact ⟨_, .long, rfl, covers_of_advances hadvances⟩

theorem interruption_of_unfetched {stream : InstructionStream}
    (h : machine.fetch = .error .busError stream) :
    Interruption machine (machine.withStream stream).stop := by
  obtain ⟨last, size, rfl, hcovers⟩ := covers_of_refused_fetch h
  have hfetched : machine.fetched = none := by unfold Machine.fetched; rw [h]
  refine ⟨rfl, rfl, rfl, rfl, ?_, ?_, rfl, fun _ => ⟨rfl, rfl, rfl, rfl⟩, fun _ hsome => ?_⟩
  · show last.pc = machine.cpu.pc
      + UInt32.ofNat (fetchedBytes (last.events ++ [.read .program size last.pc none]))
    rw [fetchedBytes_append]
    exact hcovers.last_eq
  · intro hbranch
    rcases List.mem_append.mp hbranch with hmem | hmem
    · obtain ⟨_, _, _, heq⟩ := hcovers.eq_read hmem
      cases heq
    · cases List.mem_singleton.mp hmem
  · rw [hfetched] at hsome; cases hsome

omit [Bus β] in
theorem memoryTarget_withStream (machine : Machine β) (stream : InstructionStream)
    (instruction : Instruction) :
    instruction.memoryTarget (machine.withStream stream).cpu
      = instruction.memoryTarget machine.cpu := by
  cases instruction with
  | store _ _ destination | saveFrame destination => cases destination <;> rfl
  | storeControl register destination => cases destination <;> cases register <;> rfl
  | _ => rfl

theorem interrupted_of_withStream {instruction : Instruction} {stream : InstructionStream}
    {last : Machine β} (h : Interrupted (machine.withStream stream) last instruction) :
    Interrupted machine last.stop instruction := by
  cases h with
  | @reading _ width place hsource hrefused hbus haddress hfp hcycles =>
    obtain ⟨hplace, hmoved⟩ := machine.address_withStream stream width place
    rw [hplace] at hrefused
    exact .reading hsource hrefused hbus (haddress.trans hmoved) hfp hcycles
  | @writing _ width place value count htarget hbus haddress hfp hcycles =>
    obtain ⟨hplace, hmoved⟩ := machine.address_withStream stream width place
    rw [hplace] at hbus
    rw [memoryTarget_withStream] at htarget
    exact .writing htarget hbus (haddress.trans hmoved) hfp hcycles
  | pushing hregister hslots hbus haddress hfp hcycles =>
    exact .pushing hregister hslots hbus haddress hfp hcycles
  | popping hregister hfp hrefused hbus haddress hcycles =>
    exact .popping hregister hfp hrefused hbus haddress hcycles

theorem interruption_of_refused {instruction : Instruction} {stream : InstructionStream}
    {last : Machine β} (hfetch : machine.fetch = .ok instruction stream)
    (h : Exec.Aborted instruction (machine.withStream stream) last) :
    Interruption machine last.stop := by
  have hfetched : machine.fetched = some instruction := fetched_eq_some_iff.mpr ⟨stream, hfetch⟩
  obtain ⟨hcpu, ⟨events, hevents, hdata⟩, hinterrupted⟩ := h
  have hcovers := covers_of_fetch hfetch
  have hevents : last.events = stream.events ++ events := hevents
  refine ⟨?_, ?_, ?_, ?_, ?_, ?_, rfl, fun hnone => ?_, fun other hother => ?_⟩
  · show last.cpu.data = _; rw [hcpu]; rfl
  · show last.cpu.fpcr = _; rw [hcpu]; rfl
  · show last.cpu.fpsr = _; rw [hcpu]; rfl
  · show last.cpu.fpiar = _; rw [hcpu]; rfl
  · show last.cpu.pc = machine.cpu.pc + UInt32.ofNat (fetchedBytes last.events)
    rw [hcpu, hevents, fetchedBytes_append, fetchedBytes_of_isData hdata]
    exact hcovers.last_eq
  · show .branch ∉ last.events
    rw [hevents]
    intro hbranch
    rcases List.mem_append.mp hbranch with hmem | hmem
    · obtain ⟨_, _, _, heq⟩ := hcovers.eq_read hmem
      cases heq
    · exact hdata _ hmem
  · rw [hfetched] at hnone; cases hnone
  · obtain rfl := Option.some.inj (hfetched.symm.trans hother)
    exact interrupted_of_withStream hinterrupted

/-- A step that ends in a refused access leaves a bounded part of its effects behind. -/
theorem interruption_step (h : machine.step.fault = some .busError) :
    Interruption machine machine.step.machine := by
  have hsteps := steps_step machine
  generalize machine.step = outcome at h hsteps ⊢
  cases hsteps with
  | unfetched hfetch => cases h; exact interruption_of_unfetched hfetch
  | completed => cases h
  | refused hfetch hexecute => exact interruption_of_refused hfetch (Exec.aborted_execute hexecute)

/-- A machine about to push FP0, FP1 and FP2 below `2000`, where `1FF0` to `1FF3` are refused. -/
def aboutToPushPastRefusal : Machine SparseMemory where
  cpu := {
    pc := 0x400
    address := Bank.fill 0x2000
    fp := ⟨#v[⟨0x3FF0000000000000⟩, ⟨0x7FF0000000000001⟩, ⟨0⟩, ⟨0⟩, ⟨0⟩, ⟨0⟩, ⟨0⟩, ⟨0⟩]⟩ }
  bus := ByteAddressed.storeBytes { refused := [⟨0x1FF0, 0x1FF3⟩] } 0x400 [0xF2, 0x20, 0xE0, 0x07]

/-- The padding of the second slot is refused: one slot and two longs have been written by then. -/
theorem interruption_step_second_slot :
    aboutToPushPastRefusal.step.fault = some .busError ∧
      Interruption aboutToPushPastRefusal aboutToPushPastRefusal.step.machine ∧
      Interrupted aboutToPushPastRefusal aboutToPushPastRefusal.step.machine
        (.storeMultiple 0 [0, 1, 2]) := by
  have hfault : aboutToPushPastRefusal.step.fault = some .busError := by decide +kernel
  have hfetched : aboutToPushPastRefusal.fetched = some (.storeMultiple 0 [0, 1, 2]) := by
    decide +kernel
  have hinterruption := interruption_step hfault
  exact ⟨hfault, hinterruption, hinterruption.fetched _ hfetched⟩

end Machine

end M68Fpu
