import M68Fpu.Proofs.Congruence

/-!
# The instruction stream only moves forward

Every fetch is a run of reads at the program counter (`InstructionStream.Advances`), which leaves
the instruction address and the instruction register as they were. It ends with a result, with a
rejection of the encoding at the instruction address, or at the first read that the bus refuses
(`InstructionStream.Fails`). No other fault can occur while an instruction is fetched.

`Fetch.Sequential` says this of one fetch and is closed under sequencing, so each fetch of the
library inherits it from the fetches that it is made of. A whole instruction
(`Fetch.instruction_ok`, `Fetch.instruction_error`) is an opcode followed by such a fetch.

A fetch that ends well is taken apart from the front: each of its parts has ended well
(`Fetch.bind_eq_ok_iff`), and a read has been accepted (`Fetch.word_eq_ok_iff`).
-/

namespace M68Fpu

namespace InstructionStream

variable {β : Type} [Bus β] {bus : β} {first middle last : InstructionStream}

/-! ## Single reads -/

/-- The stream after a word. -/
def afterWord (stream : InstructionStream) (value : UInt16) : InstructionStream :=
  { stream with
    pc := stream.pc + 2
    events := stream.events ++ [.read .program .word stream.pc (some value.toUInt32)] }

def afterLong (stream : InstructionStream) (value : UInt32) : InstructionStream :=
  { stream with
    pc := stream.pc + 4
    events := stream.events ++ [.read .program .long stream.pc (some value)] }

/-- The stream after a read that the bus refused. -/
def afterRefusal (stream : InstructionStream) (size : AccessSize) : InstructionStream :=
  { stream with events := stream.events ++ [.read .program size stream.pc none] }

/-- The stream after an opcode. -/
def afterOpcode (stream : InstructionStream) (opcode : UInt16) : InstructionStream :=
  { stream.afterWord opcode with ir := opcode }

/-! ## Runs of reads -/

/-- The streams that accepted reads lead to. -/
inductive Advances (bus : β) (first : InstructionStream) : InstructionStream → Prop
  | refl : Advances bus first first
  | word {last : InstructionStream} {value : UInt16} (h : Advances bus first last)
      (hread : Bus.read16 bus last.pc = some value) : Advances bus first (last.afterWord value)
  | long {last : InstructionStream} {value : UInt32} (h : Advances bus first last)
      (hread : Bus.read32 bus last.pc = some value) : Advances bus first (last.afterLong value)

/-- How a fetch can end in a fault. -/
inductive Fails (bus : β) (first : InstructionStream) : Fault → InstructionStream → Prop
  | rejected {last : InstructionStream} (cause : DecodeError) (h : Advances bus first last) :
      Fails bus first (.decode cause first.start) last
  | refusedWord {last : InstructionStream} (h : Advances bus first last)
      (hread : Bus.read16 bus last.pc = none) :
      Fails bus first .busError (last.afterRefusal .word)
  | refusedLong {last : InstructionStream} (h : Advances bus first last)
      (hread : Bus.read32 bus last.pc = none) :
      Fails bus first .busError (last.afterRefusal .long)

namespace Advances

theorem start_eq (h : Advances bus first last) : last.start = first.start := by
  induction h with
  | refl => rfl
  | word _ _ ih => exact ih
  | long _ _ ih => exact ih

theorem ir_eq (h : Advances bus first last) : last.ir = first.ir := by
  induction h with
  | refl => rfl
  | word _ _ ih => exact ih
  | long _ _ ih => exact ih

theorem trans (hfirst : Advances bus first middle) (hlast : Advances bus middle last) :
    Advances bus first last := by
  induction hlast with
  | refl => exact hfirst
  | word _ hread ih => exact .word ih hread
  | long _ hread ih => exact .long ih hread

theorem trans_fails (hfirst : Advances bus first middle) {fault : Fault}
    (hlast : Fails bus middle fault last) : Fails bus first fault last := by
  cases hlast with
  | rejected cause h =>
    rw [hfirst.start_eq]
    exact .rejected cause (hfirst.trans h)
  | refusedWord h hread => exact .refusedWord (hfirst.trans h) hread
  | refusedLong h hread => exact .refusedLong (hfirst.trans h) hread

end Advances

/-! ## The bytes that were read -/

/-- Accepted reads of the instruction stream that cover the bytes from one address up to another,
each once and in ascending order. -/
inductive Covers (first : UInt32) : List BusEvent → UInt32 → Prop
  | nil : Covers first [] first
  | snoc {events : List BusEvent} {last : UInt32} (h : Covers first events last) (size : AccessSize)
      (value : UInt32) :
      Covers first (events ++ [.read .program size last (some value)])
        (last + UInt32.ofNat (size.bits / 8))

/-- The bytes of the instruction stream that an event has fetched. -/
def eventBytes : BusEvent → Nat
  | .read .program size _ (some _) => size.bits / 8
  | _ => 0

/-- The bytes of the instruction stream that events have fetched. -/
def fetchedBytes : List BusEvent → Nat
  | [] => 0
  | event :: rest => eventBytes event + fetchedBytes rest

theorem fetchedBytes_append (first second : List BusEvent) :
    fetchedBytes (first ++ second) = fetchedBytes first + fetchedBytes second := by
  induction first with
  | nil => simp [fetchedBytes]
  | cons event rest ih =>
    rw [List.cons_append, fetchedBytes, fetchedBytes, ih, Nat.add_assoc]

theorem Covers.last_eq {first last : UInt32} {events : List BusEvent}
    (h : Covers first events last) :
    last = first + UInt32.ofNat (fetchedBytes events) := by
  induction h with
  | nil => simp [fetchedBytes]
  | snoc h size value ih =>
    -- The last read begins where those before it end.
    rw [fetchedBytes_append, UInt32.ofNat_add, ← UInt32.add_assoc, ← ih]
    rfl

/-- Nothing but reads covers bytes. -/
theorem Covers.eq_read {first last : UInt32} {events : List BusEvent} {event : BusEvent}
    (h : Covers first events last) (hevent : event ∈ events) :
    ∃ size address value, event = .read .program size address (some value) := by
  induction h with
  | nil => cases hevent
  | @snoc events last h size value ih =>
    rcases List.mem_append.mp hevent with hmem | hmem
    · exact ih hmem
    · exact ⟨size, last, value, List.mem_singleton.mp hmem⟩

theorem Advances.covers {start : UInt32} (h : Advances bus first last)
    (hcovers : Covers start first.events first.pc) : Covers start last.events last.pc := by
  induction h with
  | refl => exact hcovers
  | word _ _ ih => exact ih.snoc .word _
  | long _ _ ih => exact ih.snoc .long _

end InstructionStream

namespace Fetch

open InstructionStream (Advances Fails)

variable {β α γ : Type}

/-! ## Single fetches -/

theorem bind_apply (fetch : Fetch β α) (next : α → Fetch β γ) (bus : β)
    (stream : InstructionStream) :
    (fetch >>= next) bus stream =
      match fetch bus stream with
      | .ok value stream => next value bus stream
      | .error fault stream => .error fault stream := by
  show EStateM.bind (fetch bus) (fun value => next value bus) stream = _
  unfold EStateM.bind
  cases fetch bus stream <;> rfl

theorem discard_apply (fetch : Fetch β α) (bus : β) (stream : InstructionStream) :
    discard fetch bus stream =
      match fetch bus stream with
      | .ok _ stream => .ok () stream
      | .error fault stream => .error fault stream := by
  show (fetch >>= fun _ => (pure () : Fetch β Unit)) bus stream = _
  rw [bind_apply]
  rfl

theorem word_of_read [Bus β] {bus : β} {stream : InstructionStream} {value : UInt16}
    (hread : Bus.read16 bus stream.pc = some value) :
    word bus stream = .ok value (stream.afterWord value) := by
  unfold word
  simp only [hread]
  rfl

theorem word_of_refusal [Bus β] {bus : β} {stream : InstructionStream}
    (hread : Bus.read16 bus stream.pc = none) :
    word bus stream = .error .busError (stream.afterRefusal .word) := by
  unfold word
  simp only [hread]
  rfl

theorem long_of_read [Bus β] {bus : β} {stream : InstructionStream} {value : UInt32}
    (hread : Bus.read32 bus stream.pc = some value) :
    long bus stream = .ok value (stream.afterLong value) := by
  unfold long
  simp only [hread]
  rfl

theorem long_of_refusal [Bus β] {bus : β} {stream : InstructionStream}
    (hread : Bus.read32 bus stream.pc = none) :
    long bus stream = .error .busError (stream.afterRefusal .long) := by
  unfold long
  simp only [hread]
  rfl

theorem require_of_some {option : Option α} {value : α} (h : option = some value)
    (cause : DecodeError) (bus : β) (stream : InstructionStream) :
    (require option cause : Fetch β α) bus stream = .ok value stream := by
  rw [h]
  rfl

theorem require_of_none {option : Option α} (h : option = none) (cause : DecodeError) (bus : β)
    (stream : InstructionStream) :
    (require option cause : Fetch β α) bus stream = .error (.decode cause stream.start) stream := by
  rw [h]
  rfl

/-! ### Fetches that end well -/

section

variable {bus : β} {stream last : InstructionStream}

theorem bind_eq_ok_iff {fetch : Fetch β α} {next : α → Fetch β γ} {value : γ} :
    (fetch >>= next) bus stream = .ok value last ↔
      ∃ first middle, fetch bus stream = .ok first middle ∧
        next first bus middle = .ok value last := by
  rw [bind_apply]
  cases fetch bus stream with
  | ok first middle =>
    constructor
    · exact fun h => ⟨first, middle, rfl, h⟩
    · rintro ⟨_, _, hfirst, h⟩
      cases hfirst
      exact h
  | error fault middle => simp

theorem require_eq_ok_iff {option : Option α} {cause : DecodeError} {value : α} :
    (require option cause : Fetch β α) bus stream = .ok value last ↔
      option = some value ∧ stream = last := by
  cases option with
  | none => simp [require, reject]
  | some answer =>
    show EStateM.Result.ok answer stream = .ok value last ↔ _
    simp

theorem accept_eq_ok_iff {answer : Except DecodeError α} {value : α} :
    (accept answer : Fetch β α) bus stream = .ok value last ↔
      answer = .ok value ∧ stream = last := by
  cases answer with
  | error cause => simp [accept, reject]
  | ok answer =>
    show EStateM.Result.ok answer stream = .ok value last ↔ _
    simp

variable [Bus β]

theorem word_eq_ok_iff {value : UInt16} :
    word bus stream = .ok value last ↔
      Bus.read16 bus stream.pc = some value ∧ last = stream.afterWord value := by
  cases hread : Bus.read16 bus stream.pc with
  | none => simp [word_of_refusal hread]
  | some answer =>
    rw [word_of_read hread]
    constructor
    · intro h
      cases h
      exact ⟨rfl, rfl⟩
    · rintro ⟨h, rfl⟩
      cases h
      rfl

theorem long_eq_ok_iff {value : UInt32} :
    long bus stream = .ok value last ↔
      Bus.read32 bus stream.pc = some value ∧ last = stream.afterLong value := by
  cases hread : Bus.read32 bus stream.pc with
  | none => simp [long_of_refusal hread]
  | some answer =>
    rw [long_of_read hread]
    constructor
    · intro h
      cases h
      exact ⟨rfl, rfl⟩
    · rintro ⟨h, rfl⟩
      cases h
      rfl

end

/-! ## Sequential fetches -/

/-- A fetch that does nothing but read on from the program counter. -/
structure Sequential [Bus β] (fetch : Fetch β α) : Prop where
  ok {bus : β} {first last : InstructionStream} {value : α} :
    fetch bus first = .ok value last → Advances bus first last
  error {bus : β} {first last : InstructionStream} {fault : Fault} :
    fetch bus first = .error fault last → Fails bus first fault last

namespace Sequential

variable [Bus β]

theorem pure (value : α) : Sequential (Pure.pure value : Fetch β α) where
  ok h := by cases h; exact .refl
  error h := by cases h

theorem get : Sequential (MonadState.get : Fetch β InstructionStream) where
  ok h := by cases h; exact .refl
  error h := by cases h

theorem reject (cause : DecodeError) : Sequential (Fetch.reject cause : Fetch β α) where
  ok h := by cases h
  error h := by cases h; exact .rejected cause .refl

theorem bind {fetch : Fetch β α} {next : α → Fetch β γ} (hfetch : Sequential fetch)
    (hnext : ∀ value, Sequential (next value)) : Sequential (fetch >>= next) where
  ok h := by
    obtain ⟨value, middle, hfirst, hrest⟩ := bind_eq_ok_iff.mp h
    exact (hfetch.ok hfirst).trans ((hnext value).ok hrest)
  error {bus first last fault} h := by
    rw [bind_apply] at h
    cases hfirst : fetch bus first with
    -- Where the second fetch fails, the reads of the first one lie before its own.
    | ok middleValue middle =>
      rw [hfirst] at h
      exact (hfetch.ok hfirst).trans_fails ((hnext middleValue).error h)
    | error fault middle => rw [hfirst] at h; cases h; exact hfetch.error hfirst

theorem word : Sequential (Fetch.word : Fetch β UInt16) where
  ok h := by
    obtain ⟨hread, rfl⟩ := word_eq_ok_iff.mp h
    exact .word .refl hread
  error {bus first last fault} h := by
    cases hread : Bus.read16 bus first.pc with
    | none => rw [word_of_refusal hread] at h; cases h; exact .refusedWord .refl hread
    | some answer => rw [word_of_read hread] at h; cases h

theorem long : Sequential (Fetch.long : Fetch β UInt32) where
  ok h := by
    obtain ⟨hread, rfl⟩ := long_eq_ok_iff.mp h
    exact .long .refl hread
  error {bus first last fault} h := by
    cases hread : Bus.read32 bus first.pc with
    | none => rw [long_of_refusal hread] at h; cases h; exact .refusedLong .refl hread
    | some answer => rw [long_of_read hread] at h; cases h

/-- So is every fetch that is made of such. -/
theorem congruence : Congruence fun α (fetch : Fetch β α) (_ : Fetch β α) => Sequential fetch where
  pure := pure
  bind := bind
  get := get
  reject := reject
  word := word
  long := long

end Sequential

/-! ## Whole instructions -/

variable [Bus β] {bus : β} {stream last : InstructionStream}

def rest (opcode : UInt16) : Fetch β Instruction :=
  match OpcodeGroup.decode opcode with
  | .general => general
  | .stateFrame => stateFrame
  | .unassigned => throw (.illegalInstruction opcode)

theorem instruction_of_read {opcode : UInt16} (hread : Bus.read16 bus stream.pc = some opcode) :
    instruction bus stream = rest opcode bus (stream.afterOpcode opcode) := by
  have hopcode : Fetch.opcode bus stream = .ok opcode (stream.afterOpcode opcode) := by
    unfold Fetch.opcode
    rw [bind_apply, word_of_read hread]
    rfl
  unfold instruction
  rw [bind_apply, hopcode]
  rfl

theorem instruction_of_refusal (hread : Bus.read16 bus stream.pc = none) :
    instruction bus stream = .error .busError (stream.afterRefusal .word) := by
  unfold instruction Fetch.opcode
  rw [bind_apply, bind_apply, word_of_refusal hread]

theorem location_of_supported {access : Access} {place : EffectiveAddress}
    (hplace : EffectiveAddress.decode (addressField stream.ir) = some place)
    (hsupports : access.supports place = true) (bus : β) :
    location access bus stream = locate access place bus stream := by
  have hfilter : (EffectiveAddress.decode (addressField stream.ir)).filter access.supports
      = some place := by
    rw [hplace, Option.filter_some, if_pos hsupports]
  unfold location
  rw [bind_apply]
  show (require _ _ >>= locate access : Fetch β Location) bus stream = _
  rw [bind_apply, require_of_some hfilter]

theorem command_of_read {second : UInt16} {fields : Command}
    (hread : Bus.read16 bus stream.pc = some second)
    (hfields : Command.decode second = some fields) :
    command bus stream = ofCommand fields bus (stream.afterWord second) := by
  unfold command
  rw [bind_apply, word_of_read hread]
  dsimp only
  rw [bind_apply, require_of_some hfields]

theorem command_of_refusal (hread : Bus.read16 bus stream.pc = none) :
    command bus stream = .error .busError (stream.afterRefusal .word) := by
  unfold command
  rw [bind_apply, word_of_refusal hread]

/-- What follows an opcode of the general group. -/
def ofOperation : GeneralOp → Fetch β Instruction
  | .command => command
  | .branchWord => branch (signExtendWord <$> word)
  | .branchLong => branch long

theorem instruction_of_operation {opcode : UInt16} {operation : GeneralOp}
    (hread : Bus.read16 bus stream.pc = some opcode)
    (hgroup : OpcodeGroup.decode opcode = .general)
    (hoperation : GeneralOp.decode opcode = some operation) :
    instruction bus stream = ofOperation operation bus (stream.afterOpcode opcode) := by
  have hir : (stream.afterOpcode opcode).ir = opcode := rfl
  rw [instruction_of_read hread, rest, hgroup]
  show general bus (stream.afterOpcode opcode) = _
  unfold general
  rw [bind_apply]
  show (require (GeneralOp.decode (stream.afterOpcode opcode).ir) _ >>= _ : Fetch β Instruction)
    bus (stream.afterOpcode opcode) = _
  rw [hir, bind_apply, require_of_some hoperation]
  cases operation <;> rfl

/-- A fetched instruction is an opcode and what reads from behind it lead to. -/
theorem instruction_ok {fetched : Instruction} (h : instruction bus stream = .ok fetched last) :
    ∃ opcode, Bus.read16 bus stream.pc = some opcode ∧
      Advances bus (stream.afterOpcode opcode) last := by
  cases hread : Bus.read16 bus stream.pc with
  | none => rw [instruction_of_refusal hread] at h; cases h
  | some opcode =>
    rw [instruction_of_read hread] at h
    refine ⟨opcode, rfl, ?_⟩
    unfold rest at h
    cases hgroup : OpcodeGroup.decode opcode with
    | general => rw [hgroup] at h; exact Sequential.congruence.general.ok h
    | stateFrame => rw [hgroup] at h; exact Sequential.congruence.stateFrame.ok h
    | unassigned => rw [hgroup] at h; cases h

/-- A fetch that ends in a fault has been refused the opcode, has fetched an opcode that is no
instruction, or has failed behind the opcode. -/
theorem instruction_error {fault : Fault} (h : instruction bus stream = .error fault last) :
    (fault = .busError ∧ last = stream.afterRefusal .word) ∨
      ∃ opcode, Bus.read16 bus stream.pc = some opcode ∧
        ((fault = .illegalInstruction opcode ∧ last = stream.afterOpcode opcode) ∨
          Fails bus (stream.afterOpcode opcode) fault last) := by
  cases hread : Bus.read16 bus stream.pc with
  | none =>
    rw [instruction_of_refusal hread] at h
    cases h
    exact .inl ⟨rfl, rfl⟩
  | some opcode =>
    rw [instruction_of_read hread] at h
    refine .inr ⟨opcode, rfl, ?_⟩
    unfold rest at h
    cases hgroup : OpcodeGroup.decode opcode with
    | general => rw [hgroup] at h; exact .inr (Sequential.congruence.general.error h)
    | stateFrame => rw [hgroup] at h; exact .inr (Sequential.congruence.stateFrame.error h)
    | unassigned => rw [hgroup] at h; cases h; exact .inl ⟨rfl, rfl⟩

end Fetch

end M68Fpu
