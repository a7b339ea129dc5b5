import M68Fpu.Proofs.Step

/-!
# The fault of an encoding

On a bus that refuses nothing, whether an instruction completes and what is wrong with it otherwise
is a function of three words: the opcode, the word behind it and the word behind that one. This
module gives the function (`encodingFault`) and follows every fetch to prove that a step agrees with
it (`Machine.step_fault_eq`). Whatever else a fetch reads, displacements, addresses and immediate
data, cannot be wrong.
-/

namespace M68Fpu

/-! ## The function -/

/-- What is wrong with an operand location, given the word behind the instruction so far. -/
def Access.rejection (access : Access) (opcode extension : UInt16) : Option DecodeError :=
  match (EffectiveAddress.decode (addressField opcode)).filter access.supports with
  | none => some (Fetch.unsupported access opcode)
  | some (.indexed _) =>
    if Index.decode extension = none then some (.indexFormat extension) else none
  | some _ => none

/-- What is wrong with a command, given the opcode and the word behind the command. -/
def Command.rejection (opcode extension : UInt16) : Command → Option DecodeError
  | .arithmetic source _ code =>
    match Opmode.decode code, source with
    | none, _ => some (.unknownOpmode code)
    | some _, .register _ => none
    | some _, .memory format =>
      match format.loadFormat with
      | .error cause => some cause
      | .ok format => Access.rejection ⟨format.width, .read⟩ opcode extension
  | .moveToMemory format _ =>
    match format.storeFormat with
    | .error cause => some cause
    | .ok format => Access.rejection ⟨format.width, .write⟩ opcode extension
  | .moveControl toMemory select =>
    match ControlRegister.decode select with
    | none => some (.unknownControlRegister select toMemory)
    | some _ => Access.rejection ⟨.long, if toMemory then .write else .read⟩ opcode extension
  | .moveMultiple toMemory mode list =>
    if mode ≠ (if toMemory then 0 else 2) then some (.multipleMode mode)
    else if listedBits list = [] then none
    else Access.rejection ⟨.extended, if toMemory then .write else .read⟩ opcode extension

def commandRejection (opcode second third : UInt16) : Option DecodeError :=
  match Command.decode second with
  | none => some (.unknownClass (Command.classField second))
  | some fields => fields.rejection opcode third

def branchRejection (opcode : UInt16) : Option DecodeError :=
  match Condition.decode (addressField opcode) with
  | none => some (.unknownCondition (addressField opcode))
  | some _ => none

/-- What is wrong with an instruction of the general group. -/
def generalRejection (opcode second third : UInt16) : Option DecodeError :=
  match GeneralOp.decode opcode with
  | none => some (.unknownOperation (operationField opcode))
  | some .command => commandRejection opcode second third
  | some .branchWord | some .branchLong => branchRejection opcode

/-- What is wrong with an instruction of the state frame group. -/
def stateFrameRejection (opcode second : UInt16) : Option DecodeError :=
  match StateFrameOp.decode opcode with
  | none => some (.unknownFrameOperation (operationField opcode))
  | some .save => Access.rejection ⟨.long, .write⟩ opcode second
  | some .restore => Access.rejection ⟨.long, .read⟩ opcode second

/-- The fault of the instruction at `start` with the given words, if it has one. -/
def encodingFault (start : UInt32) (opcode second third : UInt16) : Option Fault :=
  match OpcodeGroup.decode opcode with
  | .general => (generalRejection opcode second third).map (Fault.decode · start)
  | .stateFrame => (stateFrameRejection opcode second).map (Fault.decode · start)
  | .unassigned => some (.illegalInstruction opcode)

namespace Fetch

variable {β α γ : Type} {bus : β} {stream : InstructionStream}

/-! ## How fetches end -/

/-- The end of a fetch to which nothing is refused: a value with a property, or a rejection. -/
inductive Settled (start : UInt32) (expected : α → Prop) :
    Option DecodeError → EStateM.Result Fault InstructionStream α → Prop
  | ok {value : α} {last : InstructionStream} (h : expected value) :
      Settled start expected none (.ok value last)
  | rejected {cause : DecodeError} {last : InstructionStream} :
      Settled start expected (some cause) (.error (.decode cause start) last)

namespace Settled

variable {start : UInt32} {expected : α → Prop} {wanted : γ → Prop}
  {rejection : Option DecodeError}

/-- What comes after a fetch does not matter if it is never rejected itself. -/
theorem bind {fetch : Fetch β α} {next : α → Fetch β γ}
    (hfetch : Settled start expected rejection (fetch bus stream))
    (hnext : ∀ value last, expected value → Settled start wanted none (next value bus last)) :
    Settled start wanted rejection ((fetch >>= next) bus stream) := by
  rw [bind_apply]
  generalize fetch bus stream = result at hfetch
  cases hfetch with
  | ok h => exact hnext _ _ h
  | rejected => exact .rejected

/-- A field that has no value is what is wrong, one that has a value leads on. -/
theorem require {option : Option α} {cause : DecodeError} {next : α → Fetch β γ}
    (hnone : option = none → rejection = some cause)
    (hsome : ∀ value, option = some value →
      Settled stream.start wanted rejection (next value bus stream)) :
    Settled stream.start wanted rejection ((Fetch.require option cause >>= next) bus stream) := by
  rw [bind_apply]
  cases hoption : option with
  | none =>
    rw [require_of_none rfl, hnone hoption]
    exact .rejected
  | some value =>
    rw [require_of_some rfl]
    exact hsome value hoption

theorem accept {answer : Except DecodeError α} {next : α → Fetch β γ}
    (herror : ∀ cause, answer = .error cause → rejection = some cause)
    (hok : ∀ value, answer = .ok value →
      Settled stream.start wanted rejection (next value bus stream)) :
    Settled stream.start wanted rejection ((Fetch.accept answer >>= next) bus stream) := by
  rw [bind_apply]
  cases hanswer : answer with
  | error cause =>
    rw [herror cause hanswer]
    exact .rejected
  | ok value => exact hok value hanswer

end Settled

/-- The property of a fetch whose value does not matter. -/
abbrev anything : α → Prop := fun _ => True

theorem settled_branch {displacement : Fetch β UInt32}
    (hdisplacement : Settled stream.start anything none (displacement bus stream)) :
    Settled stream.start anything (branchRejection stream.ir) (branch displacement bus stream) := by
  unfold branch branchRejection
  rw [bind_apply]
  refine Settled.require (fun hnone => by rw [hnone]) (fun condition hcondition => ?_)
  rw [hcondition]
  exact hdisplacement.bind fun _ _ _ => .ok trivial

variable [Bus β]

/-- A word can always be read on. -/
theorem Settled.word {wanted : γ → Prop} {start : UInt32} {rejection : Option DecodeError}
    {next : UInt16 → Fetch β γ} (hbus : Bus.NeverRefuses bus)
    (hnext : ∀ value, Bus.read16 bus stream.pc = some value →
      Settled start wanted rejection (next value bus (stream.afterWord value))) :
    Settled start wanted rejection ((Fetch.word >>= next) bus stream) := by
  obtain ⟨value, hread⟩ := hbus.exists_read16 stream.pc
  rw [bind_apply, word_of_read hread]
  exact hnext value hread

theorem Settled.long {wanted : γ → Prop} {start : UInt32} {rejection : Option DecodeError}
    {next : UInt32 → Fetch β γ} (hbus : Bus.NeverRefuses bus)
    (hnext : ∀ value, Bus.read32 bus stream.pc = some value →
      Settled start wanted rejection (next value bus (stream.afterLong value))) :
    Settled start wanted rejection ((Fetch.long >>= next) bus stream) := by
  obtain ⟨value, hread⟩ := hbus.exists_read32 stream.pc
  rw [bind_apply, long_of_read hread]
  exact hnext value hread

/-! ## Operands -/

/-- Immediate data are only ever read, so no write ends up there. -/
theorem settled_location {access : Access} {extension : UInt16} (hbus : Bus.NeverRefuses bus)
    (hread : Bus.read16 bus stream.pc = some extension) :
    Settled stream.start (fun target => target = .immediate → access.direction = .read)
      (access.rejection stream.ir extension) (location access bus stream) := by
  unfold location
  rw [bind_apply]
  refine Settled.require (fun hnone => ?_) (fun place hplace => ?_)
  · unfold Access.rejection
    rw [hnone]
  · have hsupports : access.supports place = true := (Option.filter_eq_some_iff.mp hplace).2
    unfold Access.rejection
    rw [hplace]
    cases place with
    | dataRegister | indirect | postIncrement | preDecrement => exact .ok nofun
    | displaced => exact Settled.word hbus fun _ _ => .ok nofun
    | absoluteLong =>
      exact Settled.word hbus fun _ _ => Settled.word hbus fun _ _ => .ok nofun
    | pcDisplaced => exact Settled.word hbus fun _ _ => .ok nofun
    | immediate =>
      refine .ok fun _ => ?_
      simp only [Access.supports, Bool.and_eq_true, beq_iff_eq] at hsupports
      exact hsupports.1
    | indexed n =>
      -- The word that the location reads is the one that the rejection was given.
      refine Settled.word hbus fun value hvalue => ?_
      obtain rfl : extension = value := Option.some.inj (hread.symm.trans hvalue)
      show Settled (stream.afterWord extension).start _ _
        ((require (Index.decode extension) _ >>= _ : Fetch β Location) bus _)
      refine Settled.require (fun hnone => if_pos hnone) fun index hindex => ?_
      dsimp only
      rw [hindex]
      exact .ok nofun
    | addressRegister | pcIndexed | absoluteShort => cases hsupports

theorem settled_immediate {start : UInt32} (width : Width) (hbus : Bus.NeverRefuses bus) :
    Settled start anything none (immediate width bus stream) := by
  cases width with
  | byte | word => exact Settled.word hbus fun _ _ => .ok trivial
  | long => exact Settled.long hbus fun _ _ => .ok trivial
  | quad | extended =>
    exact Settled.long hbus fun _ _ => Settled.long hbus fun _ _ => .ok trivial

theorem settled_operand {width : Width} {extension : UInt16} (hbus : Bus.NeverRefuses bus)
    (hread : Bus.read16 bus stream.pc = some extension) :
    Settled stream.start anything (Access.rejection ⟨width, .read⟩ stream.ir extension)
      (operand width bus stream) := by
  refine (settled_location hbus hread).bind fun target last _ => ?_
  -- What is read behind the location, immediate data, cannot be wrong.
  cases target with
  | dataRegister | memory => exact .ok trivial
  | immediate => exact (settled_immediate width hbus).bind fun _ _ _ => .ok trivial

theorem settled_destination {width : Width} {extension : UInt16} (hbus : Bus.NeverRefuses bus)
    (hread : Bus.read16 bus stream.pc = some extension) :
    Settled stream.start anything (Access.rejection ⟨width, .write⟩ stream.ir extension)
      (destination width bus stream) := by
  refine (settled_location hbus hread).bind fun target last htarget => ?_
  cases target with
  | dataRegister | memory => exact .ok trivial
  | immediate => exact nomatch htarget rfl

/-! ## Commands -/

theorem settled_arithmetic {extension : UInt16} (hbus : Bus.NeverRefuses bus)
    (hread : Bus.read16 bus stream.pc = some extension) (source : CommandSource)
    (target : Fin 8) (code : UInt8) :
    Settled stream.start anything
      ((Command.arithmetic source target code).rejection stream.ir extension)
      (arithmetic source target code bus stream) := by
  refine Settled.require (fun hnone => by simp only [Command.rejection, hnone])
    (fun opmode hopmode => ?_)
  simp only [Command.rejection, hopmode]
  cases source with
  | register => exact .ok trivial
  | memory format =>
    refine Settled.accept (fun cause hcause => ?_) (fun transferred hformat => ?_)
    · simp only [hcause]
    · simp only [hformat]
      exact (settled_operand hbus hread).bind fun _ _ _ => .ok trivial

theorem settled_moveToMemory {extension : UInt16} (hbus : Bus.NeverRefuses bus)
    (hread : Bus.read16 bus stream.pc = some extension) (format : Format) (source : Fin 8) :
    Settled stream.start anything
      ((Command.moveToMemory format source).rejection stream.ir extension)
      (moveToMemory format source bus stream) := by
  refine Settled.accept (fun cause hcause => ?_) (fun transferred hformat => ?_)
  · simp only [Command.rejection, hcause]
  · simp only [Command.rejection, hformat]
    exact (settled_destination hbus hread).bind fun _ _ _ => .ok trivial

theorem settled_moveControl {extension : UInt16} (hbus : Bus.NeverRefuses bus)
    (hread : Bus.read16 bus stream.pc = some extension) (toMemory : Bool) (select : UInt8) :
    Settled stream.start anything
      ((Command.moveControl toMemory select).rejection stream.ir extension)
      (moveControl toMemory select bus stream) := by
  refine Settled.require (fun hnone => by simp only [Command.rejection, hnone])
    (fun register hregister => ?_)
  simp only [Command.rejection, hregister]
  cases toMemory with
  | true => exact (settled_destination hbus hread).bind fun _ _ _ => .ok trivial
  | false => exact (settled_operand hbus hread).bind fun _ _ _ => .ok trivial

/-- An empty list leaves the address field unread. -/
theorem settled_stack (direction : Direction) {extension : UInt16} (hbus : Bus.NeverRefuses bus)
    (hread : Bus.read16 bus stream.pc = some extension) (registers : List (Fin 8)) :
    Settled stream.start anything
      (if registers = [] then none else Access.rejection ⟨.extended, direction⟩ stream.ir extension)
      (stack direction registers bus stream) := by
  cases registers with
  | nil => exact .ok trivial
  | cons n rest =>
    have hdiscard : Settled stream.start anything
        (Access.rejection ⟨.extended, direction⟩ stream.ir extension)
        ((discard (location ⟨.extended, direction⟩) : Fetch β Unit) bus stream) := by
      show Settled _ _ _
        ((location ⟨.extended, direction⟩ >>= fun _ => (pure () : Fetch β Unit)) bus stream)
      exact (settled_location hbus hread).bind fun _ _ _ => .ok trivial
    rw [if_neg (List.cons_ne_nil n rest)]
    exact hdiscard.bind fun _ _ _ => .ok trivial

theorem settled_moveMultiple {extension : UInt16} (hbus : Bus.NeverRefuses bus)
    (hread : Bus.read16 bus stream.pc = some extension) (toMemory : Bool) (mode list : UInt8) :
    Settled stream.start anything
      ((Command.moveMultiple toMemory mode list).rejection stream.ir extension)
      (moveMultiple toMemory mode list bus stream) := by
  -- The mode is looked at before the address field, so a wrong mode hides a wrong location.
  cases toMemory with
  | true =>
    by_cases hmode : mode = 0
    · subst hmode
      exact (settled_stack .write hbus hread (storedRegisters list)).bind fun _ _ _ => .ok trivial
    · have hrejection : (Command.moveMultiple true mode list).rejection stream.ir extension
          = some (.multipleMode mode) := if_pos hmode
      rw [hrejection]
      simp only [moveMultiple, if_true, if_neg hmode]
      exact Settled.rejected
  | false =>
    by_cases hmode : mode = 2
    · subst hmode
      have hempty : (loadedRegisters list = []) = (listedBits list = []) := by
        rw [loadedRegisters, List.map_eq_nil_iff]
      have hstack := settled_stack .read hbus hread (loadedRegisters list)
      simp only [hempty] at hstack
      exact hstack.bind fun _ _ _ => .ok trivial
    · have hrejection : (Command.moveMultiple false mode list).rejection stream.ir extension
          = some (.multipleMode mode) := if_pos hmode
      rw [hrejection]
      simp only [moveMultiple, if_neg hmode]
      exact Settled.rejected

theorem settled_ofCommand {extension : UInt16} (hbus : Bus.NeverRefuses bus)
    (hread : Bus.read16 bus stream.pc = some extension) (fields : Command) :
    Settled stream.start anything (fields.rejection stream.ir extension)
      (ofCommand fields bus stream) := by
  cases fields with
  | arithmetic => exact settled_arithmetic hbus hread _ _ _
  | moveToMemory => exact settled_moveToMemory hbus hread _ _
  | moveControl => exact settled_moveControl hbus hread _ _
  | moveMultiple => exact settled_moveMultiple hbus hread _ _ _

theorem settled_command {second third : UInt16} (hbus : Bus.NeverRefuses bus)
    (hsecond : Bus.read16 bus stream.pc = some second)
    (hthird : Bus.read16 bus (stream.pc + 2) = some third) :
    Settled stream.start anything (commandRejection stream.ir second third)
      (command bus stream) := by
  refine Settled.word hbus fun value hvalue => ?_
  obtain rfl : second = value := Option.some.inj (hsecond.symm.trans hvalue)
  unfold commandRejection
  show Settled (stream.afterWord second).start _ _
    ((require (Command.decode second) _ >>= ofCommand : Fetch β Instruction) bus _)
  refine Settled.require (fun hnone => by rw [hnone]) (fun fields hfields => ?_)
  rw [hfields]
  exact settled_ofCommand hbus hthird fields

/-! ## Instructions -/

theorem settled_general {second third : UInt16} (hbus : Bus.NeverRefuses bus)
    (hsecond : Bus.read16 bus stream.pc = some second)
    (hthird : Bus.read16 bus (stream.pc + 2) = some third) :
    Settled stream.start anything (generalRejection stream.ir second third)
      (general bus stream) := by
  unfold general generalRejection
  rw [bind_apply]
  refine Settled.require (fun hnone => by rw [hnone]) (fun operation hoperation => ?_)
  rw [hoperation]
  cases operation with
  | command => exact settled_command hbus hsecond hthird
  | branchWord =>
    obtain ⟨value, hread⟩ := hbus.exists_read16 stream.pc
    refine settled_branch ?_
    rw [map_eq_pure_bind, bind_apply, word_of_read hread]
    exact .ok trivial
  | branchLong =>
    obtain ⟨value, hread⟩ := hbus.exists_read32 stream.pc
    refine settled_branch ?_
    rw [long_of_read hread]
    exact .ok trivial

theorem settled_stateFrame {second : UInt16} (hbus : Bus.NeverRefuses bus)
    (hsecond : Bus.read16 bus stream.pc = some second) :
    Settled stream.start anything (stateFrameRejection stream.ir second)
      (stateFrame bus stream) := by
  unfold stateFrame stateFrameRejection
  rw [bind_apply]
  refine Settled.require (fun hnone => by rw [hnone]) (fun operation hoperation => ?_)
  rw [hoperation]
  cases operation with
  | save => exact (settled_destination hbus hsecond).bind fun _ _ _ => .ok trivial
  | restore => exact (settled_operand hbus hsecond).bind fun _ _ _ => .ok trivial

end Fetch

/-! ## Steps -/

namespace Machine

variable {β : Type} [Bus β] {machine : Machine β}

/-- The fault that a fetch ends in. -/
def fetchFault : EStateM.Result Fault InstructionStream Instruction → Option Fault
  | .ok _ _ => none
  | .error fault _ => some fault

theorem fetchFault_of_settled {start : UInt32} {expected : Instruction → Prop}
    {rejection : Option DecodeError}
    {result : EStateM.Result Fault InstructionStream Instruction}
    (h : Fetch.Settled start expected rejection result) :
    fetchFault result = rejection.map (Fault.decode · start) := by
  cases h <;> rfl

theorem fetchFault_fetch {opcode second third : UInt16} (hbus : Bus.NeverRefuses machine.bus)
    (hopcode : Bus.read16 machine.bus machine.cpu.pc = some opcode)
    (hsecond : Bus.read16 machine.bus (machine.cpu.pc + 2) = some second)
    (hthird : Bus.read16 machine.bus (machine.cpu.pc + 4) = some third) :
    fetchFault machine.fetch = encodingFault machine.cpu.pc opcode second third := by
  have hfetch : machine.fetch
      = Fetch.rest opcode machine.bus ((machine.stream machine.cpu.pc).afterOpcode opcode) :=
    Fetch.instruction_of_read hopcode
  have hpc : machine.cpu.pc + 2 + 2 = machine.cpu.pc + 4 := UInt32.add_assoc _ _ _
  rw [← hpc] at hthird
  rw [hfetch]
  -- What is left is a fetch from the stream behind the opcode.
  generalize hstream : (machine.stream machine.cpu.pc).afterOpcode opcode = stream
  have hstart : stream.start = machine.cpu.pc := by rw [← hstream]; rfl
  have hbehind : stream.pc = machine.cpu.pc + 2 := by rw [← hstream]; rfl
  have hir : stream.ir = opcode := by rw [← hstream]; rfl
  rw [← hbehind] at hsecond hthird
  rw [← hstart, ← hir]
  unfold encodingFault Fetch.rest
  cases OpcodeGroup.decode stream.ir with
  | general => exact fetchFault_of_settled (Fetch.settled_general hbus hsecond hthird)
  | stateFrame => exact fetchFault_of_settled (Fetch.settled_stateFrame hbus hsecond)
  | unassigned => rfl

/-- On a bus that refuses nothing, a step ends in the fault of its encoding. -/
theorem step_fault_eq {opcode second third : UInt16} (hbus : Bus.NeverRefuses machine.bus)
    (hopcode : Bus.read16 machine.bus machine.cpu.pc = some opcode)
    (hsecond : Bus.read16 machine.bus (machine.cpu.pc + 2) = some second)
    (hthird : Bus.read16 machine.bus (machine.cpu.pc + 4) = some third) :
    machine.step.fault = encodingFault machine.cpu.pc opcode second third := by
  rw [← fetchFault_fetch hbus hopcode hsecond hthird]
  cases hfetch : machine.fetch with
  | error fault stream => rw [step_of_fetch_error hfetch]; rfl
  | ok instruction stream =>
    cases hexecute : Exec.execute instruction (machine.withStream stream) with
    | ok value last => rw [step_of_execute_ok hfetch hexecute]; rfl
    | error fault last =>
      obtain ⟨-, bus, hreaches, hrefuses⟩ := (Exec.orderly_execute instruction).error hexecute
      -- An instruction that was fetched can only fail at an access, and none is refused.
      exact absurd hrefuses (hbus bus hreaches)

end Machine

end M68Fpu
