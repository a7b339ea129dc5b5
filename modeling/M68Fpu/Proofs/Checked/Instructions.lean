import M68Fpu.Proofs.Checked.Commands
import M68Fpu.Proofs.CycleBound

/-!
# No instruction panics

A checked instruction is a fetch and an execution, as one that checks nothing is
(`Checked.instruction_eq`). It counts the target of a branch from another place: what the
displacement loses is what the program counter has gained behind it, and a displacement of 16 bits
has room for the loss (`Checked.branch_eq`, `Checked.subtract_two`). So each way of executing an
instruction has the outcome that it has without the checks (`Checked.performStep_eq`,
`Checked.finishGeneral_eq`, `Checked.finishStateFrame_eq`), which is none of a panic.

`Checked.NeverPanics` collects this and what it rests on: which places an access may use, how these
resolve, and that the accesses have a case for each resolution. The count of cycles is the only
number that keeps growing, and it does so slowly.
-/

namespace M68Fpu

namespace Checked

variable {β α γ : Type}

/-! ## Outcomes -/

theorem outcome_of_ok {action : Checked β Unit} {machine : Machine β} {start : UInt32}
    {last : State β} (h : action ⟨{ machine with events := [] }, start⟩ = .ok () last) :
    action.outcome ⟨machine, start⟩ = .ok ⟨none, last.machine⟩ := by
  unfold outcome
  rw [h]

theorem outcome_of_fault {action : Checked β Unit} {machine : Machine β} {start : UInt32}
    {fault : Fault} {last : State β}
    (h : action ⟨{ machine with events := [] }, start⟩ = .error (.fault fault) last) :
    action.outcome ⟨machine, start⟩ = .ok ⟨some fault, last.machine⟩ := by
  unfold outcome
  rw [h]

theorem outcome_congr {action other : Checked β Unit} {machine : Machine β} {start address : UInt32}
    (h : action ⟨{ machine with events := [] }, start⟩ =
      other ⟨{ machine with events := [] }, address⟩) :
    action.outcome ⟨machine, start⟩ = other.outcome ⟨machine, address⟩ := by
  unfold outcome
  rw [h]

/-! ## Numbers -/

/-- A displacement of a word has room for what is taken from it. -/
theorem subtract_two (word : UInt16) :
    (subtract word.toInt16.toInt32 2 : Checked β Int32) = pure (word.toInt16.toInt32 - 2) := by
  have hlower : -32768 ≤ word.toInt16.toInt := word.toInt16.le_toInt
  have hupper : word.toInt16.toInt < 32768 := word.toInt16.toInt_lt
  have htwo : (2 : Int32).toInt = 2 := rfl
  have hmin : Int32.minValue.toInt = -2147483648 := rfl
  have hmax : Int32.maxValue.toInt = 2147483647 := rfl
  unfold subtract
  rw [Int16.toInt_toInt32, htwo, hmin, hmax, if_pos (by omega)]

theorem add_back (base length value : UInt32) :
    base + length + (value - length) = base + value := by
  rw [UInt32.add_assoc, UInt32.add_comm length, UInt32.sub_add_cancel]

theorem groupOf_eq (opcode : UInt16) :
    (groupOf opcode : Checked β OpcodeGroup) = pure (OpcodeGroup.decode opcode) :=
  if_pos opcode.toNat_lt

variable [Bus β]

/-! ## Branches -/

theorem jump_eq {condition : Condition} {displacement : Int32} {target : UInt32}
    {state : State β} (htarget : state.machine.cpu.pc + displacement.toUInt32 = target) :
    (do
      if condition.holds (← cpu).fpsr then
        ofExec Exec.traceBranch
        jump displacement
      charge Exec.branchCycles : Checked β Unit) state =
        ofExec (Exec.branch condition target) state := by
  subst htarget
  rw [cpu_bind, Exec.branch, ofExec_cpu_bind]
  cases condition.holds state.machine.cpu.fpsr <;> rfl

/-- A branch that counts from behind its displacement goes where the displacement, counted from in
front of itself, leads. -/
theorem branch_eq {fetch : Fetch β α} {offset : α → UInt32} {displacement : α → Int32}
    (htarget : ∀ {bus stream value last}, fetch bus stream = .ok value last →
      last.pc + (displacement value).toUInt32 = stream.pc + offset value) :
    (do
      let condition ← condition
      let value ← ofFetch fetch
      if condition.holds (← cpu).fpsr then
        ofExec Exec.traceBranch
        jump (displacement value)
      charge Exec.branchCycles : Checked β Unit) = staged (Fetch.branch (offset <$> fetch)) := by
  unfold Fetch.branch
  rw [staged_bind]
  funext state
  show (condition >>= _ : Checked β Unit) state =
    (staged (Fetch.require _ _ >>= _) : Checked β Unit) state
  rw [staged_bind]
  refine bind_apply_congr rfl fun condition state _ => ?_
  -- The fetch of the branch keeps the base next to the displacement.
  show _ = (staged (_ <$> fetch >>= _) : Checked β Unit) state
  simp only [staged_bind, map_eq_pure_bind, bind_assoc, pure_bind]
  refine bind_apply_congr rfl fun value last hvalue => ?_
  obtain ⟨stream, hfetch, rfl⟩ := ofFetch_eq_ok hvalue
  have htarget := htarget hfetch
  exact jump_eq htarget

theorem branchWord_eq :
    (branchWord : Checked β Unit) = staged (Fetch.branch (signExtendWord <$> Fetch.word)) := by
  have htarget {bus : β} {stream last : InstructionStream} {value : UInt16}
      (hword : Fetch.word bus stream = .ok value last) :
      last.pc + (value.toInt16.toInt32 - 2).toUInt32 = stream.pc + signExtendWord value := by
    obtain ⟨-, rfl⟩ := Fetch.word_eq_ok_iff.mp hword
    show stream.pc + 2 + (value.toInt16.toInt32 - 2).toUInt32 = _
    rw [Int32.toUInt32_sub]
    exact add_back stream.pc 2 (signExtendWord value)
  rw [← branch_eq htarget]
  simp only [branchWord, subtract_two, pure_bind]
  rfl

theorem branchLong_eq :
    (branchLong : Checked β Unit) = staged (Fetch.branch Fetch.long) := by
  have htarget {bus : β} {stream last : InstructionStream} {value : UInt32}
      (hlong : Fetch.long bus stream = .ok value last) :
      last.pc + (value.toInt32 - 4).toUInt32 = stream.pc + id value := by
    obtain ⟨-, rfl⟩ := Fetch.long_eq_ok_iff.mp hlong
    show stream.pc + 4 + (value.toInt32 - 4).toUInt32 = _
    rw [Int32.toUInt32_sub, UInt32.toUInt32_toInt32]
    exact add_back stream.pc 4 value
  rw [← id_map Fetch.long, ← branch_eq htarget]
  rfl

/-! ## Instructions -/

theorem general_eq (state : State β) :
    general state = staged Fetch.general { state with start := state.machine.cpu.pc - 2 } := by
  show (require _ _ >>= _ : Checked β Unit) _ =
    (staged (Fetch.require _ _ >>= _) : Checked β Unit) _
  rw [staged_bind]
  refine bind_apply_congr rfl fun operation last _ => ?_
  cases operation with
  | command => exact congrFun command_eq last
  | branchWord => exact congrFun branchWord_eq last
  | branchLong => exact congrFun branchLong_eq last

theorem stateFrame_eq (state : State β) :
    stateFrame state =
      staged Fetch.stateFrame { state with start := state.machine.cpu.pc - 2 } := by
  show (require _ _ >>= _ : Checked β Unit) _ =
    (staged (Fetch.require _ _ >>= _) : Checked β Unit) _
  rw [staged_bind]
  refine bind_apply_congr rfl fun operation last _ => ?_
  cases operation with
  | save =>
    show writeOperand .long 0 last = _
    rw [writeOperand_eq (by decide), staged_bind]
    rfl
  | restore =>
    show (Function.const UInt64 () <$> readOperand .long : Checked β Unit) last = _
    rw [readOperand_eq, map_bind, staged_bind]
    refine bind_apply_congr rfl fun operand middle _ => ?_
    exact congrFun (ofExec_map _ (Exec.readOperand .long operand)).symm middle

/-- Behind an opcode, the address of the instruction is the one that it has been given. -/
theorem ofOpcode_eq (opcode : UInt16) {state : State β}
    (hstart : state.start = state.machine.cpu.pc - 2) :
    ofOpcode opcode state = staged (Fetch.rest opcode) state := by
  have hstate : { state with start := state.machine.cpu.pc - 2 } = state := by rw [← hstart]
  unfold ofOpcode Fetch.rest
  rw [groupOf_eq, pure_bind]
  cases OpcodeGroup.decode opcode with
  | general =>
    show general state = _
    rw [general_eq, hstate]
  | stateFrame =>
    show stateFrame state = _
    rw [stateFrame_eq, hstate]
  | unassigned => rfl

theorem opcode_ok {bus : β} {stream last : InstructionStream} {opcode : UInt16}
    (h : Fetch.opcode bus stream = .ok opcode last) :
    last.start = stream.start ∧ last.pc = stream.pc + 2 := by
  obtain ⟨value, middle, hword, hrest⟩ := Fetch.bind_eq_ok_iff.mp h
  obtain ⟨-, rfl⟩ := Fetch.word_eq_ok_iff.mp hword
  cases hrest
  exact ⟨rfl, rfl⟩

theorem instruction_eq (state : State β) :
    instruction state = staged Fetch.instruction { state with start := state.machine.cpu.pc } := by
  have hopcode : (do
      let opcode ← word
      modifyCpu fun cpu => { cpu with ir := opcode }
      ofOpcode opcode : Checked β Unit) = ofFetch Fetch.opcode >>= ofOpcode := by
    simp only [Fetch.opcode, ofFetch_bind, ofFetch_pure, bind_assoc, pure_bind]
    rfl
  show _ = (staged (Fetch.opcode >>= Fetch.rest) : Checked β Unit) _
  rw [staged_bind]
  refine (congrFun hopcode { state with start := state.machine.cpu.pc }).trans ?_
  refine bind_apply_congr rfl fun opcode last hlast => ?_
  obtain ⟨stream, hfetch, rfl⟩ := ofFetch_eq_ok hlast
  obtain ⟨hstart, hpc⟩ := opcode_ok hfetch
  -- The rest takes the address of the instruction from behind the opcode.
  refine ofOpcode_eq opcode ?_
  show stream.start = stream.pc - 2
  rw [hstart, hpc]
  exact (UInt32.add_sub_cancel _ _).symm

/-! ## Calls -/

/-- An instruction that is fetched and then executed has the outcome that it always has. -/
theorem outcome_staged (fetch : Fetch β Instruction) (machine : Machine β)
    (start : UInt32) :
    (staged fetch).outcome ⟨machine, start⟩ = .ok (machine.perform start fetch) := by
  unfold Machine.perform
  cases hfetch : fetch machine.bus (machine.stream start) with
  | error fault stream =>
    exact outcome_of_fault (bind_of_error (ofFetch_of_error hfetch))
  | ok instruction stream =>
    have hstaged : staged fetch ⟨{ machine with events := [] }, start⟩ =
        ofExec (Exec.execute instruction) ⟨machine.withStream stream, stream.start⟩ :=
      bind_of_ok (ofFetch_of_ok hfetch)
    cases hexecute : Exec.execute instruction (machine.withStream stream) with
    | ok _ last =>
      show _ = Except.ok ((Exec.execute instruction).outcome (machine.withStream stream))
      rw [Exec.outcome_of_ok hexecute]
      exact outcome_of_ok (hstaged.trans (ofExec_of_ok hexecute))
    | error fault last =>
      show _ = Except.ok ((Exec.execute instruction).outcome (machine.withStream stream))
      rw [Exec.outcome_of_error hexecute]
      exact outcome_of_fault (hstaged.trans (ofExec_of_error hexecute))

theorem performStep_eq (machine : Machine β) (start : UInt32) :
    performStep ⟨machine, start⟩ = .ok machine.step := by
  have houtcome : instruction.outcome ⟨machine, start⟩ =
      .ok (machine.perform machine.cpu.pc Fetch.instruction) :=
    (outcome_congr (instruction_eq _)).trans (outcome_staged _ _ _)
  unfold performStep Machine.step
  rw [houtcome]
  -- Both stop the processor if there is a fault, whatever the outcome is.
  generalize machine.perform machine.cpu.pc Fetch.instruction = outcome
  obtain ⟨fault, last⟩ := outcome
  cases fault <;> rfl

theorem finishGeneral_eq (machine : Machine β) (start : UInt32) :
    finishGeneral ⟨machine, start⟩ = .ok machine.finishGeneral :=
  (outcome_congr (general_eq _)).trans (outcome_staged _ _ _)

theorem finishStateFrame_eq (machine : Machine β) (start : UInt32) :
    finishStateFrame ⟨machine, start⟩ = .ok machine.finishStateFrame :=
  (outcome_congr (stateFrame_eq _)).trans (outcome_staged _ _ _)

/-! ## No panic -/

/-- An action that ends in a value with a property or in a fault, and in no panic. -/
def Yields (action : Checked β α) (state : State β) (property : α → Prop) : Prop :=
  match action state with
  | .ok value _ => property value
  | .error (.fault _) _ => True
  | .error (.panic _) _ => False

omit [Bus β] in
/-- A fetch and an action behind it end in no panic. -/
theorem yields_stages (fetch : Fetch β α) (action : α → Exec β γ) (state : State β) :
    Yields (ofFetch fetch >>= fun value => ofExec (action value)) state fun _ => True := by
  unfold Yields
  cases hfetch : fetch state.machine.bus
      { state.machine.stream state.start with events := state.machine.events } with
  | error fault stream => rw [bind_of_error (ofFetch_of_error hfetch)]; trivial
  | ok value stream =>
    rw [bind_of_ok (ofFetch_of_ok hfetch)]
    cases haction : action value (state.machine.withStream stream) with
    | error fault machine => rw [ofExec_of_error haction]; trivial
    | ok result machine => rw [ofExec_of_ok haction]; trivial

/-- The ways in which the location of an access can resolve. -/
structure Resolved.Fits (access : Access) (resolved : Resolved) : Prop where
  /-- There are eight data registers, and each holds up to 32 bits. -/
  of_dataRegister {number : UInt8} :
    resolved = .dataRegister number → number.toNat < 8 ∧ access.width.bits ≤ 32
  /-- Immediate data are read, and have up to 64 bits. -/
  of_immediate : resolved = .immediate → access.direction = .read ∧ access.width.bits ≤ 64
  /-- A write of 64 bits and an access to an extended slot have nothing but memory. -/
  eq_memory : access = ⟨.quad, .write⟩ ∨ access.width = .extended →
    ∃ address, resolved = .memory address

theorem fits_of_located {access : Access} {location : Fetch.Location} (h : Fits access location)
    (cpu : Cpu) : (Resolved.of (location.located access.width cpu)).Fits access := by
  obtain ⟨width, direction⟩ := access
  cases location with
  | dataRegister n =>
    have hnumber : (UInt8.ofNat n).toNat < 8 := by
      rw [toNat_number]
      exact n.isLt
    refine ⟨fun hresolved => ?_, nofun, fun hwide => ?_⟩
    · cases hresolved
      exact ⟨hnumber, h⟩
    · obtain ⟨hquad, hslot⟩ := bits_le_register_iff.mp h
      rcases hwide with hwrite | hextended
      · cases hwrite
        exact absurd rfl hquad
      · exact absurd hextended hslot
  | memory place => exact ⟨nofun, nofun, fun _ => ⟨_, rfl⟩⟩
  | immediate =>
    refine ⟨nofun, fun _ => h, fun hwide => ?_⟩
    rcases hwide with hwrite | hextended
    · cases hwrite
      cases h.1
    · exact absurd hextended (bits_le_immediate_iff.mp h.2)

theorem yields_locate (access : Access) (state : State β) :
    Yields (locate access) state (Resolved.Fits access) := by
  unfold Yields
  rw [locate_eq]
  cases hlocation : Fetch.location access state.machine.bus
      { state.machine.stream state.start with events := state.machine.events } with
  | error fault stream => rw [bind_of_error (ofFetch_of_error hlocation)]; trivial
  | ok location stream =>
    have hlocate := Exec.locate_eq access.width location (state.machine.withStream stream)
    rw [bind_of_ok (ofFetch_of_ok hlocation), map_eq_pure_bind, bind_of_ok (ofExec_of_ok hlocate)]
    exact fits_of_located (fits_of_location hlocation) _

/-- The places that `resolve` panics on. -/
def Place.IsUnresolved : Place → Prop
  | .addressRegister _ | .pcIndexed | .absoluteShort => True
  | _ => False

theorem not_isUnresolved {access : Access} {place : Place} (h : supports access place = true) :
    ¬ place.IsUnresolved := by
  obtain ⟨width, direction⟩ := access
  intro hunresolved
  cases place with
  | addressRegister | pcIndexed | absoluteShort =>
    -- The table refuses the place whatever the access is.
    cases width <;> cases direction <;> cases h
  | _ => exact hunresolved

/-- What never goes wrong, whatever the processor, the bus and the opcode are. -/
structure NeverPanics (state : State β) : Prop where
  /-- An instruction has the outcome that it has without any check: no register number reaches
  eight, no shift and no difference leaves its type, and no case is missing. -/
  performStep_eq : performStep state = .ok state.machine.step
  /-- So has the rest of an instruction whose opcode has been fetched. -/
  finishGeneral_eq : finishGeneral state = .ok state.machine.finishGeneral
  finishStateFrame_eq : finishStateFrame state = .ok state.machine.finishStateFrame
  /-- No access may use a place that has no resolution. -/
  not_isUnresolved {access : Access} {place : Place} :
    supports access place = true → ¬ place.IsUnresolved
  /-- A location resolves in no other way than the access has a case for. -/
  fits (access : Access) : Yields (locate access) state (Resolved.Fits access)
  yields_readOperand (width : Width) : Yields (readOperand width) state fun _ => True
  /-- There are no writes of bytes and words. -/
  yields_writeOperand {width : Width} (hwide : 4 ≤ width.bytes) (value : UInt64) :
    Yields (writeOperand width value) state fun _ => True
  /-- The count of cycles grows slowly. -/
  cycles_finishGeneral_le :
    state.machine.finishGeneral.machine.cpu.cycles ≤ state.machine.cpu.cycles + maxCycles
  cycles_finishStateFrame_le :
    state.machine.finishStateFrame.machine.cpu.cycles ≤ state.machine.cpu.cycles + maxCycles
  cycles_afterCalls_le (calls : List Call) :
    (state.machine.afterCalls calls).cpu.cycles
      ≤ state.machine.cpu.cycles + maxCycles * calls.length

/-- No instruction panics. -/
theorem neverPanics (state : State β) : NeverPanics state where
  performStep_eq := performStep_eq state.machine state.start
  finishGeneral_eq := finishGeneral_eq state.machine state.start
  finishStateFrame_eq := finishStateFrame_eq state.machine state.start
  not_isUnresolved := not_isUnresolved
  fits access := yields_locate access state
  yields_readOperand width := readOperand_eq (β := β) width ▸ yields_stages _ _ state
  yields_writeOperand hwide value := writeOperand_eq (β := β) hwide value ▸ yields_stages _ _ state
  cycles_finishGeneral_le := state.machine.cycles_perform_le _ Fetch.cycles_general_le
  cycles_finishStateFrame_le := state.machine.cycles_perform_le _ Fetch.cycles_stateFrame_le
  cycles_afterCalls_le := state.machine.cycles_afterCalls_le

end Checked

end M68Fpu
