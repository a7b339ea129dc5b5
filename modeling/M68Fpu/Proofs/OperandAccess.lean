import M68Fpu.Proofs.Execution

/-!
# Operands in memory, long by long

What an access to an operand does to a bus, apart from the processor: an operand is read as a whole
(`Bus.readOperand`) and written long by long (`Bus.writeLongs`), so that a write that is refused may
have left some first longs behind (`Bus.WritesFirst`).

An access that ends early has the same effects as one that completes: the processor is as before,
and all that has been recorded is accesses to data (`Machine.Records`).
-/

namespace M68Fpu

/-! ## Operands on a bus -/

/-- The longs that a number is written as. Bytes and words are not written by any instruction. -/
def Width.longs (width : Width) (value : UInt64) : List UInt32 :=
  match width with
  | byte | word => []
  | long => [value.toUInt32]
  | quad => [highLong value, lowLong value]
  | extended => [highLong value, lowLong value, 0]

namespace Bus

variable {β : Type} [Bus β]

/-- The number at an address, unless the bus refuses a part of it. -/
def readOperand (bus : β) (width : Width) (address : UInt32) : Option UInt64 :=
  match width with
  | .byte => (read8 bus address).map UInt8.toUInt64
  | .word => (read16 bus address).map UInt16.toUInt64
  | .long => (read32 bus address).map UInt32.toUInt64
  | .quad | .extended => do
    let high ← read32 bus address
    let low ← read32 bus (address + 4)
    return joinLongs high low

/-- Writes longs one after the other from an address on, unless one of them is refused. -/
def writeLongs (bus : β) (address : UInt32) : List UInt32 → Option β
  | [] => some bus
  | value :: rest => do writeLongs (← write32 bus address value) (address + 4) rest

/-- A write of longs that the bus refused behind the first `count` of them. -/
structure WritesFirst (first : β) (address : UInt32) (values : List UInt32) (count : Nat)
    (last : β) : Prop where
  count_lt : count < values.length
  accepted : writeLongs first address (values.take count) = some last
  refused : writeLongs first address (values.take (count + 1)) = none

variable {bus after : β} {address : UInt32}

theorem writeLongs_cons_of_accepted {value : UInt32} (rest : List UInt32)
    (h : write32 bus address value = some after) :
    writeLongs bus address (value :: rest) = writeLongs after (address + 4) rest := by
  rw [writeLongs, h]
  rfl

theorem writeLongs_cons_of_refused {value : UInt32} (rest : List UInt32)
    (h : write32 bus address value = none) :
    writeLongs bus address (value :: rest) = none := by
  rw [writeLongs, h]
  rfl

theorem reaches_of_writeLongs {values : List UInt32}
    (h : writeLongs bus address values = some after) : Reaches bus after := by
  induction values generalizing bus address with
  | nil => cases h; exact .refl
  | cons value rest ih =>
    cases hwrite : write32 bus address value with
    | none => rw [writeLongs_cons_of_refused rest hwrite] at h; cases h
    | some middle =>
      rw [writeLongs_cons_of_accepted rest hwrite] at h
      exact (Reaches.write32 .refl hwrite).trans (ih h)

end Bus

/-! ## Records of accesses -/

/-- Whether an event is an access to data: no fetch, and not the hook before a branch. -/
def BusEvent.IsData : BusEvent → Prop
  | read space _ _ _ => space = .data
  | write _ _ _ _ => True
  | branch => False

namespace Machine

variable {β : Type} {first middle last : Machine β}

/-- What has been recorded between two machines is of one kind. -/
def Adds (allowed : BusEvent → Prop) (first last : Machine β) : Prop :=
  ∃ events, last.events = first.events ++ events ∧ ∀ event ∈ events, allowed event

theorem Adds.of_events_eq {allowed : BusEvent → Prop} (h : last.events = first.events) :
    first.Adds allowed last :=
  ⟨[], by rw [h, List.append_nil], nofun⟩

theorem Adds.single {allowed : BusEvent → Prop} {event : BusEvent}
    (h : last.events = first.events ++ [event]) (hevent : allowed event) :
    first.Adds allowed last :=
  ⟨[event], h, fun _ hmem => List.mem_singleton.mp hmem ▸ hevent⟩

theorem Adds.trans {allowed : BusEvent → Prop} (hfirst : first.Adds allowed middle)
    (hlast : middle.Adds allowed last) : first.Adds allowed last := by
  obtain ⟨before, hbefore, hallowed⟩ := hfirst
  obtain ⟨behind, hbehind, hallowed'⟩ := hlast
  refine ⟨before ++ behind, by rw [hbehind, hbefore, List.append_assoc], fun event hmem => ?_⟩
  rcases List.mem_append.mp hmem with hmem | hmem
  · exact hallowed event hmem
  · exact hallowed' event hmem

/-- What has been recorded between two machines is accesses to data. -/
def Records (first last : Machine β) : Prop :=
  ∃ events, last.events = first.events ++ events ∧ ∀ event ∈ events, event.IsData

theorem Records.of_events_eq (h : last.events = first.events) : first.Records last :=
  Adds.of_events_eq h

theorem Records.single {event : BusEvent} (h : last.events = first.events ++ [event])
    (hevent : event.IsData) : first.Records last :=
  Adds.single h hevent

theorem Records.trans (hfirst : first.Records middle) (hlast : middle.Records last) :
    first.Records last :=
  Adds.trans hfirst hlast

/-- Accesses to operands leave the processor alone and record what they do. -/
structure Accesses (first last : Machine β) : Prop where
  cpu_eq : last.cpu = first.cpu
  records : first.Records last

theorem Accesses.refl (machine : Machine β) : machine.Accesses machine := ⟨rfl, .of_events_eq rfl⟩

theorem Accesses.trans (hfirst : first.Accesses middle) (hlast : middle.Accesses last) :
    first.Accesses last :=
  ⟨hlast.cpu_eq.trans hfirst.cpu_eq, hfirst.records.trans hlast.records⟩

theorem accesses_read (machine : Machine β) (size : AccessSize) (address : UInt32)
    (value : Option UInt32) :
    machine.Accesses (machine.record (.read .data size address value)) :=
  ⟨rfl, .single rfl rfl⟩

theorem accesses_write (machine : Machine β) (size : AccessSize) (address value : UInt32)
    (accepted : Bool) (bus : β) :
    machine.Accesses { machine.record (.write size address value accepted) with bus } :=
  ⟨rfl, .single rfl trivial⟩

end Machine

/-! ## Accesses of a machine -/

namespace Exec

variable {β : Type} [Bus β] {machine last : Machine β} {fault : Fault}

/-! ### Reading -/

theorem readMemory_ok {width : Width} {address : UInt32} {value : UInt64}
    (h : readMemory width address machine = .ok value last) :
    Bus.readOperand machine.bus width address = some value ∧ last.bus = machine.bus ∧
      machine.Accesses last := by
  cases width with
  | byte | word | long =>
    obtain ⟨part, middle, hread, hpure⟩ := bind_eq_ok_iff.mp h
    obtain ⟨hanswer, rfl⟩ := answered_eq_ok_iff.mp hread
    cases hpure
    exact ⟨congrArg (Option.map _) hanswer, rfl, machine.accesses_read _ _ _⟩
  | quad | extended =>
    obtain ⟨high, middle, hhigh, hrest⟩ := bind_eq_ok_iff.mp h
    obtain ⟨low, _, hlow, hpure⟩ := bind_eq_ok_iff.mp hrest
    obtain ⟨hread, rfl⟩ := answered_eq_ok_iff.mp hhigh
    obtain ⟨hread', rfl⟩ := answered_eq_ok_iff.mp hlow
    cases hpure
    have hread' : Bus.read32 machine.bus (address + 4) = some low := hread'
    refine ⟨?_, rfl, (machine.accesses_read _ _ _).trans (Machine.accesses_read _ _ _ _)⟩
    simp only [Bus.readOperand, hread, hread']
    rfl

theorem readMemory_error {width : Width} {address : UInt32}
    (h : readMemory width address machine = .error fault last) :
    Bus.readOperand machine.bus width address = none ∧ last.bus = machine.bus ∧
      machine.Accesses last := by
  cases width with
  | byte | word | long =>
    rcases bind_eq_error_iff.mp h with hread | ⟨_, _, _, hpure⟩
    · obtain ⟨hanswer, -, rfl⟩ := answered_eq_error_iff.mp hread
      exact ⟨congrArg (Option.map _) hanswer, rfl, machine.accesses_read _ _ _⟩
    · cases hpure
  | quad | extended =>
    rcases bind_eq_error_iff.mp h with hhigh | ⟨high, middle, hhigh, hrest⟩
    · obtain ⟨hread, -, rfl⟩ := answered_eq_error_iff.mp hhigh
      refine ⟨?_, rfl, machine.accesses_read _ _ _⟩
      simp only [Bus.readOperand, hread]
      rfl
    · obtain ⟨hread, rfl⟩ := answered_eq_ok_iff.mp hhigh
      rcases bind_eq_error_iff.mp hrest with hlow | ⟨_, _, _, hpure⟩
      · obtain ⟨hread', -, rfl⟩ := answered_eq_error_iff.mp hlow
        have hread' : Bus.read32 machine.bus (address + 4) = none := hread'
        refine ⟨?_, rfl, (machine.accesses_read _ _ _).trans (Machine.accesses_read _ _ _ _)⟩
        simp only [Bus.readOperand, hread, hread']
        rfl
      · cases hpure

/-! ### Writing -/

/-- Writes longs one after the other. -/
def writeLongs (address : UInt32) : List UInt32 → Exec β Unit
  | [] => pure ()
  | value :: rest => do
    writeLong address value
    writeLongs (address + 4) rest

theorem writeMemory_eq_writeLongs {width : Width} (hwide : 4 ≤ width.bytes) (address : UInt32)
    (value : UInt64) :
    (writeMemory width address value : Exec β Unit) = writeLongs address (width.longs value) := by
  have hpadding : address + 4 + 4 = address + 8 := UInt32.add_assoc _ _ _
  cases width with
  | byte | word => exact absurd hwide (by decide)
  | long | quad | extended =>
    simp only [writeMemory, Width.longs, writeLongs, hpadding, bind_pure_unit]

theorem writeLongs_ok {address : UInt32} {values : List UInt32}
    (h : writeLongs address values machine = .ok () last) :
    Bus.writeLongs machine.bus address values = some last.bus ∧ machine.Accesses last := by
  induction values generalizing address machine with
  | nil => cases h; exact ⟨rfl, .refl _⟩
  | cons value rest ih =>
    obtain ⟨_, middle, hfirst, hrest⟩ := bind_eq_ok_iff.mp h
    obtain ⟨bus, hwrite, rfl⟩ := writeLong_eq_ok_iff.mp hfirst
    obtain ⟨hlongs, haccesses⟩ := ih hrest
    refine ⟨?_, (machine.accesses_write .long address value true bus).trans haccesses⟩
    exact (Bus.writeLongs_cons_of_accepted rest hwrite).trans hlongs

/-- Longs whose write is refused have been written up to the one that the bus refused. -/
theorem writeLongs_error {address : UInt32} {values : List UInt32}
    (h : writeLongs address values machine = .error fault last) :
    (∃ count, Bus.WritesFirst machine.bus address values count last.bus) ∧
      machine.Accesses last := by
  induction values generalizing address machine with
  | nil => cases h
  | cons value rest ih =>
    rcases bind_eq_error_iff.mp h with hfirst | ⟨_, middle, hfirst, hrest⟩
    · obtain ⟨hwrite, -, rfl⟩ := written_eq_error_iff.mp hfirst
      have hrefused := Bus.writeLongs_cons_of_refused (rest.take 0) hwrite
      exact ⟨⟨0, Nat.succ_pos _, rfl, hrefused⟩,
        machine.accesses_write .long address value false machine.bus⟩
    · obtain ⟨bus, hwrite, rfl⟩ := writeLong_eq_ok_iff.mp hfirst
      obtain ⟨⟨count, hcount, haccepted, hrefused⟩, haccesses⟩ := ih hrest
      refine ⟨⟨count + 1, Nat.succ_lt_succ hcount, ?_, ?_⟩,
        (machine.accesses_write .long address value true bus).trans haccesses⟩
      · exact (Bus.writeLongs_cons_of_accepted _ hwrite).trans haccepted
      · exact (Bus.writeLongs_cons_of_accepted _ hwrite).trans hrefused

end Exec

end M68Fpu
