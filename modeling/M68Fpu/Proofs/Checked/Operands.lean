import M68Fpu.Proofs.AddressingRules
import M68Fpu.Proofs.Checked.Interpreter
import M68Fpu.Proofs.EncodedInstruction

/-!
# Checked access to operands

Fetching and executing are stages of the checked interpreter: `Checked.ofFetch` and `Checked.ofExec`
take sequences to sequences. An access to an operand turns out to be one stage after the other
(`Checked.readOperand_eq`, `Checked.writeOperand_eq`), even where it looks up a register before it
fetches and where it checks something.

No check fails. A register number comes from a field of three bits, a location is one that the
access may use, and of these each resolves in a way that there is a case for (`Checked.Fits`).
-/

namespace M68Fpu

namespace Checked

variable {β α γ : Type}

/-! ## Widths -/

theorem bits_le_register_iff {width : Width} :
    width.bits ≤ 32 ↔ width ≠ .quad ∧ width ≠ .extended := by
  cases width <;> decide

theorem bits_le_immediate_iff {width : Width} : width.bits ≤ 64 ↔ width ≠ .extended := by
  cases width <;> decide

/-! ## Two stages -/

@[simp] theorem ofExec_pure (value : α) : (ofExec (pure value) : Checked β α) = pure value := rfl

@[simp] theorem ofExec_bind (action : Exec β α) (next : α → Exec β γ) :
    ofExec (action >>= next) = ofExec action >>= fun value => ofExec (next value) := by
  funext state
  show ofExec (EStateM.bind action next) state = EStateM.bind (ofExec action) _ state
  simp only [ofExec, EStateM.bind]
  cases action state.machine <;> rfl

@[simp] theorem ofExec_map (change : α → γ) (action : Exec β α) :
    ofExec (change <$> action) = change <$> ofExec action := by
  rw [← bind_pure_comp, ← bind_pure_comp, ofExec_bind]
  rfl

@[simp] theorem ofFetch_pure (value : α) : (ofFetch (pure value) : Checked β α) = pure value := rfl

@[simp] theorem ofFetch_bind (fetch : Fetch β α) (next : α → Fetch β γ) :
    ofFetch (fetch >>= next) = ofFetch fetch >>= fun value => ofFetch (next value) := by
  funext state
  show ofFetch (fetch >>= next) state = EStateM.bind (ofFetch fetch) _ state
  simp only [ofFetch, EStateM.bind, Fetch.bind_apply]
  cases fetch state.machine.bus _ <;> rfl

/-! ### Ends of actions -/

theorem ofExec_of_ok {action : Exec β α} {value : α} {state : State β} {machine : Machine β}
    (h : action state.machine = .ok value machine) :
    ofExec action state = .ok value { state with machine } := by
  unfold ofExec
  rw [h]

theorem ofExec_of_error {action : Exec β α} {fault : Fault} {state : State β} {machine : Machine β}
    (h : action state.machine = .error fault machine) :
    ofExec action state = .error (.fault fault) { state with machine } := by
  unfold ofExec
  rw [h]

theorem ofFetch_of_ok {fetch : Fetch β α} {value : α} {state : State β}
    {stream : InstructionStream}
    (h : fetch state.machine.bus
      { state.machine.stream state.start with events := state.machine.events } =
        .ok value stream) :
    ofFetch fetch state = .ok value ⟨state.machine.withStream stream, stream.start⟩ := by
  unfold ofFetch
  rw [h]

theorem ofFetch_of_error {fetch : Fetch β α} {fault : Fault} {state : State β}
    {stream : InstructionStream}
    (h : fetch state.machine.bus
      { state.machine.stream state.start with events := state.machine.events } =
        .error fault stream) :
    ofFetch fetch state =
      .error (.fault fault) ⟨state.machine.withStream stream, stream.start⟩ := by
  unfold ofFetch
  rw [h]

theorem ofExec_eq_ok {action : Exec β α} {value : α} {state last : State β}
    (h : ofExec action state = .ok value last) :
    ∃ machine, action state.machine = .ok value machine ∧ last = { state with machine } := by
  unfold ofExec at h
  cases haction : action state.machine with
  | ok found machine =>
    rw [haction] at h
    cases h
    exact ⟨machine, rfl, rfl⟩
  | error => rw [haction] at h; cases h

theorem ofFetch_eq_ok {fetch : Fetch β α} {value : α} {state last : State β}
    (h : ofFetch fetch state = .ok value last) :
    ∃ stream, fetch state.machine.bus
        { state.machine.stream state.start with events := state.machine.events } =
          .ok value stream ∧
      last = ⟨state.machine.withStream stream, stream.start⟩ := by
  unfold ofFetch at h
  cases hfetch : fetch state.machine.bus
      { state.machine.stream state.start with events := state.machine.events } with
  | ok found stream =>
    rw [hfetch] at h
    cases h
    exact ⟨stream, rfl, rfl⟩
  | error => rw [hfetch] at h; cases h

theorem bind_of_ok {action : Checked β α} {next : α → Checked β γ} {state middle : State β}
    {value : α} (h : action state = .ok value middle) :
    (action >>= next) state = next value middle := by
  show EStateM.bind action next state = _
  unfold EStateM.bind
  rw [h]

theorem bind_of_error {action : Checked β α} {next : α → Checked β γ} {state last : State β}
    {stop : Stop} (h : action state = .error stop last) :
    (action >>= next) state = .error stop last := by
  show EStateM.bind action next state = _
  unfold EStateM.bind
  rw [h]

theorem bind_apply_congr {first : Checked β α} {next other : α → Checked β γ} {state : State β}
    {second : Checked β α} (hfirst : first state = second state)
    (hnext : ∀ value last, second state = .ok value last → next value last = other value last) :
    (first >>= next) state = (second >>= other) state := by
  show EStateM.bind first next state = EStateM.bind second other state
  unfold EStateM.bind
  rw [hfirst]
  cases hsecond : second state with
  | ok value last => exact hnext value last hsecond
  | error => rfl

theorem ofFetch_bind_of_ok {fetch : Fetch β α} {next : α → Checked β γ} {state : State β}
    {value : α}
    (h : ∀ events, fetch state.machine.bus { state.machine.stream state.start with events } =
      .ok value { state.machine.stream state.start with events }) :
    (ofFetch fetch >>= next) state = next value state := by
  refine bind_of_ok ?_
  unfold ofFetch
  rw [h]
  rfl

/-! ### Lookups -/

theorem cpu_bind (next : Cpu → Checked β α) (state : State β) :
    (cpu >>= next) state = next state.machine.cpu state := rfl

theorem ofExec_cpu_bind (next : Cpu → Exec β α) (state : State β) :
    ofExec (Exec.cpu >>= next) state = ofExec (next state.machine.cpu) state := rfl

theorem ir_bind (next : UInt16 → Checked β α) :
    (cpu >>= fun cpu => next cpu.ir) = ofFetch get >>= fun stream => next stream.ir := rfl

/-- What does not depend on the instruction stream can be looked up before or after a fetch. -/
theorem cpu_bind_ofFetch {δ : Type} (part : Cpu → α)
    (hpart : ∀ cpu : Cpu, ∀ pc ir, part { cpu with pc, ir } = part cpu)
    (fetch : Fetch β γ) (next : α → γ → Checked β δ) :
    (cpu >>= fun cpu => ofFetch fetch >>= fun value => next (part cpu) value) =
      ofFetch fetch >>= fun value => cpu >>= fun cpu => next (part cpu) value := by
  funext state
  rw [cpu_bind]
  show EStateM.bind (ofFetch fetch) _ state = EStateM.bind (ofFetch fetch) _ state
  simp only [ofFetch, EStateM.bind]
  cases fetch state.machine.bus _ with
  | error => rfl
  | ok value stream =>
    dsimp only
    rw [cpu_bind]
    exact congrArg (fun found => next found value _) (hpart _ _ _).symm

/-- Only the values that a fetch can yield matter to what follows it. -/
theorem ofFetch_bind_congr {fetch : Fetch β α} {first second : α → Checked β γ} {Found : α → Prop}
    (hfetch : ∀ {bus stream value last}, fetch bus stream = .ok value last → Found value)
    (h : ∀ value, Found value → first value = second value) :
    ofFetch fetch >>= first = ofFetch fetch >>= second := by
  funext state
  show EStateM.bind (ofFetch fetch) first state = EStateM.bind (ofFetch fetch) second state
  simp only [ofFetch, EStateM.bind]
  cases hvalue : fetch state.machine.bus _ with
  | error => rfl
  | ok value stream => exact congrFun (h value (hfetch hvalue)) _

/-! ## Registers -/

theorem toNat_number (n : Fin 8) : (UInt8.ofNat n).toNat = n.val :=
  (UInt8.toNat_ofNat').trans (Nat.mod_eq_of_lt (Nat.lt_trans n.isLt (by decide)))

theorem register_ofNat (n : Fin 8) :
    (register (UInt8.ofNat n).toNat : Checked β (Fin 8)) = pure n := by
  unfold register
  simp only [toNat_number, dif_pos n.isLt]

theorem register_val (n : Fin 8) : (register n.val : Checked β (Fin 8)) = pure n :=
  dif_pos n.isLt

/-! ## Places -/

/-- Where an operand is, with a plain register number. -/
def Resolved.of : Located → Resolved
  | .dataRegister n => .dataRegister (UInt8.ofNat n)
  | .memory address => .memory address
  | .immediate => .immediate

theorem step_ofNat (width : Width) (n : Fin 8) : step width (UInt8.ofNat n) = width.step n := by
  cases width <;> revert n <;> decide

theorem shiftLeft_masked (value : UInt32) (extension : UInt16) :
    (shiftLeft value (masked extension 9 3) : Checked β UInt32) =
      pure (value <<< UInt32.ofNat (bitField extension 9 2)) := by
  have hcount : (masked extension 9 3).toNat = bitField extension 9 2 :=
    toNat_masked extension (by decide) (by decide)
  have hlt : bitField extension 9 2 < 4 := bitField_lt extension 9 2
  unfold shiftLeft
  rw [← UInt32.ofNat_uInt16ToNat, hcount, if_pos (by omega)]

theorem masked_one_ne_zero (word : UInt16) {low : UInt16} (hlow : low.toNat < 16) :
    (masked word low 1 != 0) = decide (bitField word low.toNat 1 = 1) := by
  have hlt : bitField word low.toNat 1 < 2 := bitField_lt word low.toNat 1
  rw [masked_eq word hlow (show (1 : UInt16).toNat = 1 <<< 1 - 1 from rfl)]
  match hbit : bitField word low.toNat 1, hlt with
  | 0, _ | 1, _ => rfl

theorem index_eq [Bus β] (extension : UInt16) :
    (index extension : Checked β UInt32) =
      ofFetch (Fetch.require (Index.decode extension) (.indexFormat extension)) >>= fun index =>
        (fun cpu => index.offset cpu) <$> cpu := by
  have hformat : (masked extension 8 1 != 0) = decide (bitField extension 8 1 = 1) :=
    masked_one_ne_zero extension (by decide)
  have hbank : (masked extension 15 1 != 0) = decide (bitField extension 15 1 = 1) :=
    masked_one_ne_zero extension (by decide)
  have hsize : (masked extension 11 1 != 0) = decide (bitField extension 11 1 = 1) :=
    masked_one_ne_zero extension (by decide)
  have hregister : (masked extension 12 7).toUInt8 = UInt8.ofNat (octalField extension 12) :=
    toUInt8_masked extension (by decide) (by decide)
  simp only [index, Index.decode, hformat, hbank, hsize, hregister, data, address, register_ofNat,
    shiftLeft_masked, pure_bind]
  funext state
  by_cases hfull : bitField extension 8 1 = 1
  · rw [if_pos (decide_eq_true hfull), if_pos hfull]
    rfl
  · rw [if_neg (decide_eq_true_iff.not.mpr hfull), if_neg hfull]
    cases haddress : decide (bitField extension 15 1 = 1) <;> rfl

/-- A location that the access may use is resolved in two stages. -/
theorem resolve_of [Bus β] {access : Access} {place : EffectiveAddress}
    (hsupports : access.supports place = true) :
    (resolve access (.of place) : Checked β Resolved) =
      ofFetch (Fetch.locate access place) >>= fun location =>
        Resolved.of <$> ofExec (Exec.locate access.width location) := by
  cases place with
  | addressRegister | pcIndexed | absoluteShort => exact absurd hsupports Bool.false_ne_true
  | dataRegister n => rfl
  | immediate => rfl
  | indirect n =>
    simp only [resolve, Place.of, address, register_ofNat, pure_bind]
    rfl
  | postIncrement n =>
    simp only [resolve, Place.of, address, setAddress, register_ofNat, pure_bind, step_ofNat]
    rfl
  | preDecrement n =>
    simp only [resolve, Place.of, address, setAddress, register_ofNat, pure_bind, step_ofNat]
    funext state
    -- The address is read again from the register that has just been moved.
    refine (congrArg (fun place => EStateM.Result.ok (Resolved.memory place) _)
      (Bank.get_put_self ..)).trans ?_
    rfl
  | displaced n =>
    simp only [resolve, Place.of, address, register_ofNat, pure_bind, Fetch.locate, ofFetch_bind,
      word, bind_assoc, map_eq_pure_bind]
    rfl
  | indexed n =>
    -- The base is looked up in front of the extension word.
    have hbase := cpu_bind_ofFetch (fun cpu => cpu.address.get n) (fun _ _ _ => rfl)
      (Fetch.word >>= fun extension =>
        Fetch.require (Index.decode extension) (.indexFormat extension))
      (fun base index =>
        (fun cpu => Resolved.memory (base + index.offset cpu)) <$> (cpu : Checked β Cpu))
    simp only [ofFetch_bind, bind_assoc, map_eq_pure_bind] at hbase
    simp only [resolve, Place.of, address, register_ofNat, pure_bind, Fetch.locate, ofFetch_bind,
      word, bind_assoc, map_eq_pure_bind, index_eq]
    exact hbase
  | pcDisplaced =>
    simp only [resolve, Place.of, Fetch.locate, ofFetch_bind, word, bind_assoc, map_eq_pure_bind]
    rfl
  | absoluteLong =>
    simp only [resolve, Place.of, Fetch.locate, ofFetch_bind, word, bind_assoc, map_eq_pure_bind]
    rfl

/-- The address field of the opcode names a location that the access may use. -/
theorem locate_eq [Bus β] (access : Access) :
    (locate access : Checked β Resolved) =
      ofFetch (Fetch.location access) >>= fun location =>
        Resolved.of <$> ofExec (Exec.locate access.width location) := by
  have hfield (opcode : UInt16) : (masked opcode 0 0x3F).toUInt8 = addressField opcode :=
    toUInt8_masked opcode (by decide) (by decide)
  have hplaces (opcode : UInt16) :
      ((EffectiveAddress.decode (addressField opcode)).map Place.of).filter (supports access) =
        ((EffectiveAddress.decode (addressField opcode)).filter access.supports).map Place.of := by
    rw [Option.filter_map]
    congr 2
    exact funext (supports_of access)
  unfold locate Fetch.location
  rw [ofFetch_bind, bind_assoc]
  refine (ir_bind fun opcode => do
    let place ← orPanic (Place.decode (masked opcode 0 0x3F).toUInt8)
    resolve access (← require (place.filter (supports access))
      (Fetch.unsupported access opcode))).trans (bind_congr fun stream => ?_)
  rw [hfield, Place.decode_eq]
  show (require (Option.filter _ _) _ >>= _ : Checked β Resolved) = _
  rw [hplaces, ofFetch_bind, bind_assoc]
  cases hplace : (EffectiveAddress.decode (addressField stream.ir)).filter access.supports with
  | none => rfl
  | some place => exact resolve_of (Option.filter_eq_some_iff.mp hplace).2

/-! ## Operands -/

/-- How the location of an operand can resolve. Data registers hold no more than 32 bits, and
immediate data of no more than 64 bits are read. -/
def Fits (access : Access) : Fetch.Location → Prop
  | .dataRegister _ => access.width.bits ≤ 32
  | .memory _ => True
  | .immediate => access.direction = .read ∧ access.width.bits ≤ 64

theorem fits_of_locates {access : Access} {place : EffectiveAddress} {location : Fetch.Location}
    (hsupports : access.supports place = true) (hlocates : Fetch.Locates place location) :
    Fits access location := by
  cases location with
  | memory => trivial
  | dataRegister n =>
    obtain rfl : place = .dataRegister n := hlocates
    obtain ⟨hslot, hquad⟩ := Bool.and_eq_true_iff.mp hsupports
    exact bits_le_register_iff.mpr ⟨bne_iff_ne.mp hquad, bne_iff_ne.mp hslot⟩
  | immediate =>
    obtain rfl : place = .immediate := hlocates
    obtain ⟨hread, hslot⟩ := Bool.and_eq_true_iff.mp hsupports
    exact ⟨eq_of_beq hread, bits_le_immediate_iff.mpr (bne_iff_ne.mp hslot)⟩

theorem fits_of_location [Bus β] {access : Access} {bus : β} {stream last : InstructionStream}
    {location : Fetch.Location} (h : Fetch.location access bus stream = .ok location last) :
    Fits access location := by
  obtain ⟨place, -, hsupports, hlocates, -⟩ := Fetch.location_ok h
  exact fits_of_locates hsupports hlocates

theorem readOperand_eq [Bus β] (width : Width) :
    (readOperand width : Checked β UInt64) =
      ofFetch (Fetch.operand width) >>= fun operand => ofExec (Exec.readOperand width operand) := by
  unfold readOperand Fetch.operand
  rw [locate_eq, bind_assoc, ofFetch_bind, bind_assoc]
  refine ofFetch_bind_congr fits_of_location fun location hfits => ?_
  cases location with
  | memory place =>
    simp only [Exec.locate, Exec.readOperand, ofExec_bind, ofExec_pure, ofFetch_pure, bind_assoc,
      map_eq_pure_bind, pure_bind, Resolved.of, readResolved]
  | dataRegister n =>
    obtain ⟨hquad, hslot⟩ := bits_le_register_iff.mp hfits
    cases width with
    | quad => exact absurd rfl hquad
    | extended => exact absurd rfl hslot
    | byte | word | long =>
      simp only [Exec.locate, ofExec_pure, map_pure, pure_bind, Resolved.of, readResolved, data,
        register_ofNat]
      rfl
  | immediate =>
    simp only [Exec.locate, Exec.readOperand, ofExec_pure, ofFetch_bind, ofFetch_pure, bind_assoc,
      map_pure, pure_bind, bind_pure, Resolved.of]
    cases width with
    | extended => exact absurd rfl (bits_le_immediate_iff.mp hfits.2)
    | byte | word | long | quad => rfl

theorem writeOperand_eq [Bus β] {width : Width} (hwide : 4 ≤ width.bytes) (value : UInt64) :
    (writeOperand width value : Checked β Unit) =
      ofFetch (Fetch.destination width) >>= fun destination =>
        ofExec (Exec.writeDestination width value destination) := by
  unfold writeOperand Fetch.destination
  rw [locate_eq, bind_assoc, ofFetch_bind, bind_assoc]
  refine ofFetch_bind_congr fits_of_location fun location hfits => ?_
  cases location with
  | memory place =>
    simp only [Exec.locate, Exec.writeDestination, ofExec_bind, ofExec_pure, ofFetch_pure,
      bind_assoc, map_eq_pure_bind, pure_bind, Resolved.of, writeResolved]
  | dataRegister n =>
    obtain ⟨hquad, hslot⟩ := bits_le_register_iff.mp hfits
    cases width with
    | byte | word => exact absurd hwide (by decide)
    | quad => exact absurd rfl hquad
    | extended => exact absurd rfl hslot
    | long =>
      simp only [Exec.locate, ofExec_pure, map_pure, pure_bind, Resolved.of, writeResolved, setData,
        register_ofNat]
      rfl
  | immediate => cases hfits.1

/-- The value of a write is looked up in front of the extension words of its destination. -/
theorem cpu_bind_writeOperand [Bus β] {width : Width} (hwide : 4 ≤ width.bytes)
    (value : Cpu → UInt64) (hvalue : ∀ cpu : Cpu, ∀ pc ir, value { cpu with pc, ir } = value cpu) :
    (cpu >>= fun cpu => writeOperand width (value cpu) : Checked β Unit) =
      ofFetch (Fetch.destination width) >>= fun destination => ofExec (Exec.cpu >>= fun cpu =>
        Exec.writeDestination width (value cpu) destination) := by
  simp only [writeOperand_eq hwide]
  rw [cpu_bind_ofFetch value hvalue (Fetch.destination width)
    fun value destination => ofExec (Exec.writeDestination width value destination)]
  simp only [ofExec_bind]
  rfl

end Checked

end M68Fpu
