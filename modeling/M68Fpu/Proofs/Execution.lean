import M68Fpu.Proofs.BusUse
import M68Fpu.Proofs.Congruence

/-!
# Running the actions of a machine

How actions on a machine compose: a sequence succeeds if both of its parts do, and ends in a fault
at the first part that does. The elementary actions are turned into equations about the state
reached, so that longer ones can be taken apart without being unfolded.

What every action of an instruction has in common is `Exec.Orderly`: it changes the bus by accepted
writes and traced branches alone, and the only fault it knows is an access that the bus refuses. The
predicate is closed under sequencing and holds of every instruction (`Exec.orderly_execute`).
-/

namespace M68Fpu

/-! ## Places -/

/-- The address of a place. -/
def Reference.address (width : Width) (cpu : Cpu) : Reference → UInt32
  | .indirect n | .postIncrement n => cpu.address.get n
  | .preDecrement n => cpu.address.get n - width.step n
  | .displaced n displacement => cpu.address.get n + displacement
  | .indexed n index => cpu.address.get n + index.offset cpu
  | .absolute address => address

/-- The processor after a place has been used: an incremented or decremented register has moved. -/
def Reference.moved (width : Width) (cpu : Cpu) : Reference → Cpu
  | .postIncrement n =>
    { cpu with address := cpu.address.put n (cpu.address.get n + width.step n) }
  | .preDecrement n =>
    { cpu with address := cpu.address.put n (cpu.address.get n - width.step n) }
  | _ => cpu

theorem Reference.moved_eq (width : Width) (cpu : Cpu) (place : Reference) :
    place.moved width cpu = { cpu with address := (place.moved width cpu).address } := by
  cases place <;> rfl

namespace Exec

variable {β α γ : Type} {machine last : Machine β}

/-! ## Sequences -/

theorem bind_eq_ok_iff {action : Exec β α} {next : α → Exec β γ} {value : γ} :
    (action >>= next) machine = .ok value last ↔
      ∃ first middle, action machine = .ok first middle ∧ next first middle = .ok value last := by
  show EStateM.bind action next machine = _ ↔ _
  unfold EStateM.bind
  cases action machine with
  | ok first middle =>
    constructor
    · exact fun h => ⟨first, middle, rfl, h⟩
    · rintro ⟨_, _, hfirst, h⟩
      cases hfirst
      exact h
  | error fault middle => simp

theorem bind_eq_error_iff {action : Exec β α} {next : α → Exec β γ} {fault : Fault} :
    (action >>= next) machine = .error fault last ↔
      action machine = .error fault last ∨
        ∃ first middle, action machine = .ok first middle ∧
          next first middle = .error fault last := by
  show EStateM.bind action next machine = _ ↔ _
  unfold EStateM.bind
  cases action machine with
  | ok first middle =>
    constructor
    · exact fun h => .inr ⟨first, middle, rfl, h⟩
    · rintro (hfault | ⟨_, _, hfirst, h⟩)
      · cases hfault
      · cases hfirst
        exact h
  | error fault middle => simp

theorem bind_of_ok {action : Exec β α} {next : α → Exec β γ} {first : α} {middle : Machine β}
    (h : action machine = .ok first middle) : (action >>= next) machine = next first middle := by
  show EStateM.bind action next machine = _
  unfold EStateM.bind
  rw [h]

theorem outcome_of_ok {action : Exec β Unit} (h : action machine = .ok () last) :
    action.outcome machine = ⟨none, last⟩ := by
  unfold outcome
  rw [h]

theorem outcome_of_error {action : Exec β Unit} {fault : Fault}
    (h : action machine = .error fault last) : action.outcome machine = ⟨some fault, last⟩ := by
  unfold outcome
  rw [h]

/-! ## Elementary actions -/

theorem address_eq (width : Width) (place : Reference) :
    address width place machine = .ok (place.address width machine.cpu)
      (machine.mapCpu fun cpu => place.moved width cpu) := by
  cases place <;> rfl

theorem address_bind (width : Width) (place : Reference) (next : UInt32 → Exec β γ) :
    (address width place >>= next) machine = next (place.address width machine.cpu)
      (machine.mapCpu fun cpu => place.moved width cpu) :=
  bind_of_ok (address_eq width place)

theorem cpu_bind (next : Cpu → Exec β γ) : (cpu >>= next) machine = next machine.cpu machine := rfl

theorem modifyCpu_bind (change : Cpu → Cpu) (next : Unit → Exec β γ) :
    (modifyCpu change >>= next) machine = next () (machine.mapCpu change) := rfl

theorem answered_eq_ok_iff {answer : Option α} {value : α} :
    answered answer machine = .ok value last ↔ answer = some value ∧ last = machine := by
  cases answer with
  | none => simp [answered]
  | some answer => simp [answered, eq_comm]

theorem answered_eq_error_iff {answer : Option α} {fault : Fault} :
    answered answer machine = .error fault last ↔
      answer = none ∧ fault = .busError ∧ last = machine := by
  cases answer with
  | none => simp [answered, eq_comm]
  | some value => simp [answered]

theorem written_eq_ok_iff {size : AccessSize} {address value : UInt32} {answer : Option β} :
    written size address value answer machine = .ok () last ↔
      ∃ bus, answer = some bus ∧
        last = { machine.record (.write size address value true) with bus } := by
  cases answer with
  | none => simp [written]
  | some bus => simp [written, eq_comm]

theorem written_eq_error_iff {size : AccessSize} {address value : UInt32} {answer : Option β}
    {fault : Fault} :
    written size address value answer machine = .error fault last ↔
      answer = none ∧ fault = .busError ∧
        last = machine.record (.write size address value false) := by
  cases answer with
  | none => simp [written, eq_comm]
  | some bus => simp [written]

variable [Bus β]

theorem readLong_eq_ok_iff {address value : UInt32} :
    readLong address machine = .ok value last ↔
      Bus.read32 machine.bus address = some value ∧
        last = machine.record (.read .data .long address (some value)) := by
  refine answered_eq_ok_iff.trans (and_congr_right fun hread => ?_)
  rw [hread]

theorem readLong_eq_error_iff {address : UInt32} {fault : Fault} :
    readLong address machine = .error fault last ↔
      Bus.read32 machine.bus address = none ∧ fault = .busError ∧
        last = machine.record (.read .data .long address none) := by
  refine answered_eq_error_iff.trans (and_congr_right fun hread => ?_)
  rw [hread]

theorem writeLong_eq_ok_iff {address value : UInt32} :
    writeLong address value machine = .ok () last ↔
      ∃ bus, Bus.write32 machine.bus address value = some bus ∧
        last = { machine.record (.write .long address value true) with bus } :=
  written_eq_ok_iff

/-! ## Orderly actions -/

/-- An action that changes the bus by accepted writes and traced branches alone, and ends in no
fault but a refused access. -/
structure Orderly (action : Exec β α) : Prop where
  ok {machine last : Machine β} {value : α} :
    action machine = .ok value last → Bus.Reaches machine.bus last.bus
  error {machine last : Machine β} {fault : Fault} :
    action machine = .error fault last →
      fault = .busError ∧ ∃ bus, Bus.Reaches machine.bus bus ∧ Bus.Refuses bus

namespace Orderly

theorem pure (value : α) : Orderly (Pure.pure value : Exec β α) where
  ok h := by cases h; exact .refl
  error h := by cases h

theorem cpu : Orderly (Exec.cpu : Exec β Cpu) where
  ok h := by cases h; exact .refl
  error h := by cases h

theorem modifyCpu (change : Cpu → Cpu) : Orderly (Exec.modifyCpu change : Exec β Unit) where
  ok h := by cases h; exact .refl
  error h := by cases h

theorem bind {action : Exec β α} {next : α → Exec β γ} (haction : Orderly action)
    (hnext : ∀ value, Orderly (next value)) : Orderly (action >>= next) where
  ok h := by
    obtain ⟨first, middle, hfirst, hsecond⟩ := bind_eq_ok_iff.mp h
    exact (haction.ok hfirst).trans ((hnext first).ok hsecond)
  error h := by
    rcases bind_eq_error_iff.mp h with hfirst | ⟨first, middle, hfirst, hsecond⟩
    · exact haction.error hfirst
    · obtain ⟨hfault, bus, hreaches, hrefuses⟩ := (hnext first).error hsecond
      exact ⟨hfault, bus, (haction.ok hfirst).trans hreaches, hrefuses⟩

/-- A read that has been recorded, as long as every answer that is missing is a refusal. -/
theorem answered {answer : Machine β → Option α} {event : Machine β → BusEvent}
    (hrefuses : ∀ machine, answer machine = none → Bus.Refuses machine.bus) :
    Orderly (fun machine => Exec.answered (answer machine) (machine.record (event machine))) where
  ok {machine _ _} h := by
    unfold Exec.answered at h
    cases hanswer : answer machine <;> simp only [hanswer] at h <;> cases h
    exact .refl
  error {machine _ _} h := by
    unfold Exec.answered at h
    cases hanswer : answer machine <;> simp only [hanswer] at h <;> cases h
    exact ⟨rfl, _, .refl, hrefuses machine hanswer⟩

/-- A write that has been recorded. -/
theorem written {answer : Machine β → Option β} {size : AccessSize} {address value : UInt32}
    (hreaches : ∀ machine after, answer machine = some after → Bus.Reaches machine.bus after)
    (hrefuses : ∀ machine, answer machine = none → Bus.Refuses machine.bus) :
    Orderly (fun machine => Exec.written size address value (answer machine) machine) where
  ok {machine _ _} h := by
    unfold Exec.written at h
    cases hanswer : answer machine <;> simp only [hanswer] at h <;> cases h
    exact hreaches machine _ hanswer
  error {machine _ _} h := by
    unfold Exec.written at h
    cases hanswer : answer machine <;> simp only [hanswer] at h <;> cases h
    exact ⟨rfl, _, .refl, hrefuses machine hanswer⟩

theorem readByte (address : UInt32) : Orderly (Exec.readByte address : Exec β UInt8) :=
  answered fun _ hread => .read8 hread

theorem readWord (address : UInt32) : Orderly (Exec.readWord address : Exec β UInt16) :=
  answered fun _ hread => .read16 hread

theorem readLong (address : UInt32) : Orderly (Exec.readLong address : Exec β UInt32) :=
  answered fun _ hread => .read32 hread

theorem writeByte (address : UInt32) (value : UInt8) :
    Orderly (Exec.writeByte address value : Exec β Unit) :=
  written (fun _ _ hwrite => .write8 .refl hwrite) fun _ hwrite => .write8 hwrite

theorem writeWord (address : UInt32) (value : UInt16) :
    Orderly (Exec.writeWord address value : Exec β Unit) :=
  written (fun _ _ hwrite => .write16 .refl hwrite) fun _ hwrite => .write16 hwrite

theorem writeLong (address value : UInt32) :
    Orderly (Exec.writeLong address value : Exec β Unit) :=
  written (fun _ _ hwrite => .write32 .refl hwrite) fun _ hwrite => .write32 hwrite

theorem traceBranch : Orderly (Exec.traceBranch : Exec β Unit) where
  ok h := by cases h; exact .traceBranch .refl
  error h := by cases h

/-- So is every action that is made of such. -/
theorem congruence : Congruence fun α (action : Exec β α) (_ : Exec β α) => Orderly action where
  pure := pure
  bind := bind
  cpu := cpu
  modifyCpu := modifyCpu
  readByte := readByte
  readWord := readWord
  readLong := readLong
  writeByte := writeByte
  writeWord := writeWord
  writeLong := writeLong
  traceBranch := traceBranch

end Orderly

/-- Every instruction that was fetched is executed in an orderly way. -/
theorem orderly_execute (instruction : Instruction) :
    Orderly (execute instruction : Exec β Unit) :=
  Orderly.congruence.execute instruction

end Exec

end M68Fpu
