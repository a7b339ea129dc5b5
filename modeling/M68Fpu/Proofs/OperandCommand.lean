import M68Fpu.Proofs.Interruption
import M68Fpu.Proofs.OperandTransfer
import M68Fpu.Proofs.RegisterListPlace

/-!
# Commands with an operand

Two kinds of commands use an operand outside of the FPU: operations, which read it, and stores,
which write it. Their words say which command it is and, by the rule of the addressing mode, where
the operand is (`Machine.HasOperation`, `Machine.HasStore`).

Whether such a command completes depends on the bus alone. If the bus has the operand, or accepts
it, the processor afterwards is known as a whole (`Machine.operates_of_operand`,
`Machine.stores_of_accepted`); if not, the step ends in a refused access.
-/

namespace M68Fpu

/-! ## Encodings -/

namespace Opmode

/-- The code of an operation. -/
def code : Opmode → UInt8
  | move => 0x00
  | sqrt => 0x04
  | abs => 0x18
  | neg => 0x1A
  | div => 0x20
  | add => 0x22
  | mul => 0x23
  | sub => 0x28
  | cmp => 0x38
  | tst => 0x3A

@[simp] theorem decode_code (opmode : Opmode) : decode opmode.code = some opmode := by
  cases opmode <;> rfl

end Opmode

namespace LoadFormat

/-- The data format of the operands. -/
def format : LoadFormat → Format
  | byteInteger => .byteInteger
  | wordInteger => .wordInteger
  | longInteger => .longInteger
  | single => .single
  | double => .double

@[simp] theorem loadFormat_format (format : LoadFormat) :
    format.format.loadFormat = .ok format := by
  cases format <;> rfl

end LoadFormat

namespace StoreFormat

/-- The data format of the operands. -/
def format : StoreFormat → Format
  | longInteger => .longInteger
  | single => .single
  | double => .double

@[simp] theorem storeFormat_format (format : StoreFormat) :
    format.format.storeFormat = .ok format := by
  cases format <;> rfl

theorem four_le_bytes (format : StoreFormat) : 4 ≤ format.width.bytes := by
  cases format <;> decide

end StoreFormat

/-! ## Rules -/

namespace EffectiveAddress

variable {width : Width} {cpu : Cpu} {place : EffectiveAddress} {words : List UInt16}
  {located other : Located} {addresses otherAddresses : Bank UInt32}

/-- The extension words and the registers determine where the operand is. -/
theorem Rule.unique (h : place.Rule width cpu words located addresses)
    (hother : place.Rule width cpu words other otherAddresses) :
    located = other ∧ addresses = otherAddresses := by
  cases h <;> cases hother <;> subst_vars <;> exact ⟨rfl, rfl⟩

/-- Nothing but the immediate mode leads to immediate data, and no write may use it. -/
theorem Rule.located_ne_immediate {access : Access}
    (h : place.Rule width cpu words located addresses) (hsupports : access.supports place = true)
    (hwrite : access.direction = .write) : located ≠ .immediate := by
  rintro rfl
  cases h
  rw [Access.supports, hwrite] at hsupports
  cases hsupports

theorem Rule.hasKnownFormat (h : place.Rule width cpu words located addresses) :
    place.HasKnownFormat words := by
  cases h with
  | indexed _ _ hbrief => exact hbrief
  | _ => trivial

end EffectiveAddress

/-! ## Fetches -/

namespace Fetch

variable {β : Type} [Bus β] {bus : β} {stream : InstructionStream}

/-- Behind the command word of an operation there is nothing but its operand. -/
theorem ofCommand_operation (opmode : Opmode) (format : LoadFormat) (n : Fin 8) (bus : β)
    (stream : InstructionStream) :
    ofCommand (.arithmetic (.memory format.format) n opmode.code) bus stream =
      match operand format.width bus stream with
      | .ok source last => .ok (.arithmetic opmode (.operand format source) n) last
      | .error fault last => .error fault last := by
  have haccept : (accept format.format.loadFormat : Fetch β LoadFormat) = pure format := by
    rw [format.loadFormat_format]
    rfl
  show (require (Opmode.decode opmode.code) _ >>= _ : Fetch β Instruction) bus stream = _
  rw [bind_apply, require_of_some opmode.decode_code]
  show (accept format.format.loadFormat >>= _ : Fetch β Instruction) bus stream = _
  rw [haccept, bind_apply]
  show (operand format.width >>= _ : Fetch β Instruction) bus stream = _
  rw [bind_apply]
  cases operand format.width bus stream <;> rfl

theorem ofCommand_store (format : StoreFormat) (n : Fin 8) (bus : β) (stream : InstructionStream) :
    ofCommand (.moveToMemory format.format n) bus stream =
      match destination format.width bus stream with
      | .ok destination last => .ok (.store format n destination) last
      | .error fault last => .error fault last := by
  have haccept : (accept format.format.storeFormat : Fetch β StoreFormat) = pure format := by
    rw [format.storeFormat_format]
    rfl
  show (accept format.format.storeFormat >>= _ : Fetch β Instruction) bus stream = _
  rw [haccept, bind_apply]
  show (destination format.width >>= _ : Fetch β Instruction) bus stream = _
  rw [bind_apply]
  cases destination format.width bus stream <;> rfl

end Fetch

/-- How a command addresses its operand: the addressing mode with its extension words, the location
that they lead to, and the address registers afterwards. -/
structure Addressing where
  place : EffectiveAddress
  words : List UInt16
  located : Located
  addresses : Bank UInt32

/-- The bytes of a command up to the end of the extension words. -/
def Addressing.length (addressing : Addressing) : Nat := 4 + 2 * addressing.words.length

/-- A data register as the operand. -/
def Addressing.dataRegister (n : Fin 8) (addresses : Bank UInt32) : Addressing :=
  ⟨.dataRegister n, [], .dataRegister n, addresses⟩

/-! ## Execution -/

namespace Exec

variable {β : Type} [Bus β] {machine : Machine β}

theorem execute_arithmetic_of_value {opmode : Opmode} {source : Source} {n : Fin 8}
    {value : Double} (h : source.value machine.bus machine.cpu = some value) :
    ∃ last, execute (.arithmetic opmode source n) machine = .ok () last ∧ last.bus = machine.bus ∧
      last.cpu = opmode.completed n value (source.moved machine.cpu) := by
  cases hexecute : execute (.arithmetic opmode source n) machine with
  | ok done last =>
    cases completed_execute hexecute with
    | arithmetic hvalue hbus hcpu =>
      obtain rfl := Option.some.inj (h.symm.trans hvalue)
      exact ⟨last, rfl, hbus, hcpu⟩
  | error fault last =>
    -- Only a source in memory can be refused, and then it has no value.
    cases (aborted_execute hexecute).interrupted with
    | reading hsource hrefused =>
      cases source with
      | register n => cases hsource
      | operand format operand =>
        cases operand with
        | dataRegister | immediate => cases hsource
        | memory place =>
          cases hsource
          rw [Source.value, Operand.value, hrefused] at h
          cases h
    | writing htarget => cases htarget

theorem execute_arithmetic_of_refusal {opmode : Opmode} {source : Source} {n : Fin 8}
    (h : source.value machine.bus machine.cpu = none) :
    ∃ last, execute (.arithmetic opmode source n) machine = .error .busError last := by
  cases hexecute : execute (.arithmetic opmode source n) machine with
  | ok done last =>
    cases completed_execute hexecute with
    | arithmetic hvalue => cases h.symm.trans hvalue
  | error fault last =>
    obtain ⟨rfl, -⟩ := (orderly_execute _).error hexecute
    exact ⟨last, rfl⟩

theorem execute_store_of_store {format : StoreFormat} {n : Fin 8} {destination : Destination}
    {after : β} (h : destination.store machine.bus machine.cpu format.width
      (format.encode (machine.cpu.fp.get n)) = some after) :
    ∃ last, execute (.store format n destination) machine = .ok () last ∧ last.bus = after ∧
      last.cpu = (destination.written format.width (format.encode (machine.cpu.fp.get n))
        machine.cpu).charged storeCycles := by
  obtain ⟨written, hwrite⟩ := writeDestination_of_store format.four_le_bytes h
  have hexecute : execute (.store format n destination) machine
      = .ok () (written.mapCpu fun cpu => cpu.charged storeCycles) := by
    rw [execute, cpu_bind, bind_of_ok hwrite]
    rfl
  cases completed_execute hexecute with
  | store hvalue hbus hcpu =>
    subst hvalue
    exact ⟨_, hexecute, Option.some.inj (hbus.symm.trans h), hcpu⟩

theorem execute_store_of_refusal {format : StoreFormat} {n : Fin 8} {destination : Destination}
    (h : destination.store machine.bus machine.cpu format.width
      (format.encode (machine.cpu.fp.get n)) = none) :
    ∃ last, execute (.store format n destination) machine = .error .busError last := by
  cases hexecute : execute (.store format n destination) machine with
  | ok done last =>
    cases completed_execute hexecute with
    | store hvalue hbus =>
      subst hvalue
      cases h.symm.trans hbus
  | error fault last =>
    obtain ⟨rfl, -⟩ := (orderly_execute _).error hexecute
    exact ⟨last, rfl⟩

end Exec

/-! ## Commands -/

namespace Machine

variable {β : Type} [Bus β] {machine : Machine β} {opcode : UInt16} {fields : Command}
  {access : Access} {addressing : Addressing} {opmode : Opmode} {n : Fin 8}

/-- Whether the words at the program counter are an opcode and a command word with given fields. -/
structure HasCommand (machine : Machine β) (opcode : UInt16) (fields : Command) : Prop where
  opcode_eq : Bus.read16 machine.bus machine.cpu.pc = some opcode
  group_eq : bitField opcode 8 8 = 0xF2
  operation_eq : bitField opcode 6 2 = 0
  fields_eq : (Bus.read16 machine.bus (machine.cpu.pc + 2)).bind Command.decode = some fields

/-- Whether the address field of an opcode and the words behind the command word address an operand
as an access may do. -/
structure HasAddressing (machine : Machine β) (opcode : UInt16) (access : Access)
    (addressing : Addressing) : Prop where
  place_eq : EffectiveAddress.decode (addressField opcode) = some addressing.place
  supported : access.supports addressing.place = true
  words_eq : Bus.readWords machine.bus (machine.cpu.pc + 4) addressing.place.extensionWords
    = some addressing.words
  rule : addressing.place.Rule access.width (machine.cpu.behind 4 machine.cpu.address)
    addressing.words addressing.located addressing.addresses

theorem hasAddressing_dataRegister {data : Fin 8}
    (hplace : EffectiveAddress.decode (addressField opcode) = some (.dataRegister data))
    (hsupported : access.supports (.dataRegister data) = true) :
    machine.HasAddressing opcode access (.dataRegister data machine.cpu.address) :=
  ⟨hplace, hsupported, rfl, .dataRegister data⟩

/-- Whether an operation on an operand and the register `n` stands at the program counter. -/
structure HasOperation (machine : Machine β) (opcode : UInt16) (opmode : Opmode)
    (format : LoadFormat) (n : Fin 8) (addressing : Addressing) : Prop where
  command : machine.HasCommand opcode (.arithmetic (.memory format.format) n opmode.code)
  addressed : machine.HasAddressing opcode ⟨format.width, .read⟩ addressing

/-- Whether a store of the register `n` stands at the program counter. -/
structure HasStore (machine : Machine β) (opcode : UInt16) (format : StoreFormat) (n : Fin 8)
    (addressing : Addressing) : Prop where
  command : machine.HasCommand opcode (.moveToMemory format.format n)
  addressed : machine.HasAddressing opcode ⟨format.width, .write⟩ addressing

/-- The operand that a command reads, if the bus has it. -/
def operand (machine : Machine β) (width : Width) (addressing : Addressing) : Option UInt64 :=
  addressing.located.operand machine (machine.cpu.pc + UInt32.ofNat addressing.length) width

/-- The step of an operation on an operand. -/
structure Operates (machine : Machine β) (opcode : UInt16) (opmode : Opmode) (format : LoadFormat)
    (n : Fin 8) (addressing : Addressing) (operand : UInt64) : Prop where
  fault_eq : machine.step.fault = none
  bus_eq : machine.step.machine.bus = machine.bus
  cpu_eq : machine.step.machine.cpu = opmode.completed n (format.value operand)
    { machine.cpu with
      pc := machine.cpu.pc
        + UInt32.ofNat (addressing.length + addressing.located.dataBytes format.width)
      ir := opcode
      address := addressing.addresses }

/-- The step of a load of the double `x`: no other register of the FPU changes. -/
structure Loads (machine : Machine β) (n : Fin 8) (addressing : Addressing) (x : Double) :
    Prop where
  fault_eq : machine.step.fault = none
  bus_eq : machine.step.machine.bus = machine.bus
  fp_eq : machine.step.machine.cpu.fp = machine.cpu.fp.put n x
  fpsr_eq : machine.step.machine.cpu.fpsr = machine.cpu.fpsr
  address_eq : machine.step.machine.cpu.address = addressing.addresses

/-- The step of a store of `bits`. -/
structure Stores (machine : Machine β) (opcode : UInt16) (width : Width) (addressing : Addressing)
    (bits : UInt64) : Prop where
  fault_eq : machine.step.fault = none
  store_eq : addressing.located.store machine.bus width bits = some machine.step.machine.bus
  cpu_eq : machine.step.machine.cpu = { machine.cpu with
    pc := machine.cpu.pc + UInt32.ofNat addressing.length
    ir := opcode
    address := addressing.addresses
    data := addressing.located.stored machine.cpu.data bits
    cycles := machine.cpu.cycles + Exec.storeCycles }

/-- Whether the step writes `bits` to where a store has its destination: it does if the bus accepts
them, and otherwise it ends in a refused access. -/
structure Writes (machine : Machine β) (opcode : UInt16) (width : Width) (addressing : Addressing)
    (bits : UInt64) : Prop where
  of_accepted {after : β} : addressing.located.store machine.bus width bits = some after →
    machine.Stores opcode width addressing bits
  of_refused : addressing.located.store machine.bus width bits = none →
    machine.step.fault = some .busError

/-- An operand fits its width. -/
theorem operand_lt {width : Width} {operand : UInt64}
    (h : machine.operand width addressing = some operand) : operand.toNat < 2 ^ width.bits := by
  unfold Machine.operand at h
  cases hlocated : addressing.located with
  | dataRegister n =>
    rw [hlocated] at h
    obtain rfl := Option.some.inj h
    exact Nat.lt_of_le_of_lt (Nat.mod_le _ _) (Nat.mod_lt _ (Nat.two_pow_pos _))
  | memory address =>
    rw [hlocated] at h
    exact Bus.readOperand_lt h
  | immediate =>
    rw [hlocated] at h
    exact Bus.readImmediate_lt h

/-! ### Fetches -/

theorem fetch_of_hasCommand (h : machine.HasCommand opcode fields) :
    ∃ stream : InstructionStream, stream.pc = machine.cpu.pc + 4 ∧ stream.ir = opcode ∧
      machine.fetch = Fetch.ofCommand fields machine.bus stream := by
  obtain ⟨second, hsecond, hfields⟩ := Option.bind_eq_some_iff.mp h.fields_eq
  have hgroup : OpcodeGroup.decode opcode = .general :=
    (OpcodeGroup.decode_eq_general_iff opcode).mpr h.group_eq
  have hoperation : GeneralOp.decode opcode = some .command :=
    (GeneralOp.decode_eq_command_iff opcode).mpr h.operation_eq
  refine ⟨machine.behindCommand opcode second, UInt32.add_assoc _ _ _, rfl, ?_⟩
  calc
    machine.fetch = Fetch.command machine.bus ((machine.stream machine.cpu.pc).afterOpcode opcode) :=
      Fetch.instruction_of_operation h.opcode_eq hgroup hoperation
    _ = _ := Fetch.command_of_read hsecond hfields

/-- The first stage finds a location that the registers resolve by the rule. -/
theorem location_of_hasAddressing (h : machine.HasAddressing opcode access addressing)
    {stream : InstructionStream} (hpc : stream.pc = machine.cpu.pc + 4)
    (hir : stream.ir = opcode) :
    ∃ location last, Fetch.location access machine.bus stream = .ok location last ∧
      last.pc = machine.cpu.pc + UInt32.ofNat addressing.length ∧ last.ir = opcode ∧
      location.located access.width machine.cpu = addressing.located ∧
      location.moved access.width machine.cpu = addressing.addresses := by
  have hplace := h.place_eq
  have hwords := h.words_eq
  rw [← hir] at hplace
  rw [← hpc] at hwords
  obtain ⟨location, last, hlocation, hlast, hlastIr, hfollows⟩ :=
    Fetch.location_of_words hplace h.supported hwords h.rule.hasKnownFormat
  obtain ⟨hlocated, hmoved⟩ := (hfollows (machine.cpu.behind 4 machine.cpu.address) hpc.symm).unique
    h.rule
  refine ⟨location, last, hlocation, ?_, hlastIr.trans hir, ?_, ?_⟩
  · rw [hlast, hpc, UInt32.add_assoc, Addressing.length, UInt32.ofNat_add]
    rfl
  · rw [← hlocated]
    cases location with
    | dataRegister | immediate => rfl
    | memory place => cases place <;> rfl
  · rw [← hmoved]
    cases location with
    | dataRegister | immediate => rfl
    | memory place => cases place <;> rfl

theorem fetch_of_hasStore {format : StoreFormat}
    (h : machine.HasStore opcode format n addressing) :
    ∃ destination last, machine.fetch = .ok (.store format n destination) last ∧
      destination.store (machine.withStream last).bus (machine.withStream last).cpu format.width
          (format.encode ((machine.withStream last).cpu.fp.get n))
        = addressing.located.store machine.bus format.width
            (format.encode (machine.cpu.fp.get n)) ∧
      destination.written format.width (format.encode (machine.cpu.fp.get n))
          (machine.withStream last).cpu
        = { machine.cpu with
            pc := machine.cpu.pc + UInt32.ofNat addressing.length
            ir := opcode
            address := addressing.addresses
            data := addressing.located.stored machine.cpu.data
              (format.encode (machine.cpu.fp.get n)) } := by
  obtain ⟨stream, hpc, hir, hfetch⟩ := fetch_of_hasCommand h.command
  obtain ⟨location, last, hlocation, hlast, hlastIr, hlocated, hmoved⟩ :=
    location_of_hasAddressing h.addressed hpc hir
  have hwritable : location ≠ .immediate := by
    rintro rfl
    exact h.addressed.rule.located_ne_immediate h.addressed.supported rfl hlocated.symm
  obtain ⟨destination, hdestination, hwrites⟩ := Fetch.destination_of_location hlocation hwritable
  obtain ⟨hbehind, hbehindMoved⟩ := Exec.located_withStream location format.width machine last
  obtain ⟨hstore, hwritten⟩ := hwrites (machine.withStream last).bus (machine.withStream last).cpu
    (format.encode (machine.cpu.fp.get n))
  rw [hbehind, hlocated] at hstore hwritten
  refine ⟨destination, last, ?_, hstore, ?_⟩
  · rw [hfetch, Fetch.ofCommand_store, hdestination]
  · rw [hwritten, hbehindMoved, hmoved, ← hlast, ← hlastIr]
    rfl

/-! ### Steps -/

/-- An operation completes if the bus has its operand. -/
theorem operates_of_operand {format : LoadFormat} {operand : UInt64}
    (h : machine.HasOperation opcode opmode format n addressing)
    (hoperand : machine.operand format.width addressing = some operand) :
    machine.Operates opcode opmode format n addressing operand := by
  obtain ⟨stream, hpc, hir, hfetch⟩ := fetch_of_hasCommand h.command
  obtain ⟨location, last, hlocation, hlast, hlastIr, hlocated, hmoved⟩ :=
    location_of_hasAddressing h.addressed hpc hir
  rw [Machine.operand, ← hlocated, ← hlast] at hoperand
  obtain ⟨source, behind, value, hsource, hvalue, hlow, hsourceMoved, hbehind, hbehindIr⟩ :=
    Fetch.operand_of_location hlocation hoperand
  rw [Fetch.ofCommand_operation, hsource] at hfetch
  -- The format does not see what a data register has above the operand.
  have hloaded : format.value value = format.value operand :=
    format.value_congr (by rw [hlow, ← hlow, Nat.mod_mod])
  have hread : (Source.operand format source).value (machine.withStream behind).bus
      (machine.withStream behind).cpu = some (format.value operand) := by
    rw [← hloaded, Source.value]
    exact congrArg (Option.map format.value)
      ((source.value_withStream machine behind format.width).trans hvalue)
  obtain ⟨after, hexecute, hbus, hcpu⟩ := Exec.execute_arithmetic_of_value hread
  have hstep := step_of_execute_ok hfetch hexecute
  refine ⟨by rw [hstep], by rw [hstep]; exact hbus, ?_⟩
  rw [hstep, hcpu, Source.moved, source.moved_eq, source.address_moved_withStream, hsourceMoved,
    hmoved]
  rw [hlast, hlocated, UInt32.add_assoc, ← UInt32.ofNat_add] at hbehind
  rw [hlastIr] at hbehindIr
  rw [← hbehind, ← hbehindIr]
  rfl

/-- A move is a load of what its operand stands for. -/
theorem loads_of_operand {format : LoadFormat} {operand : UInt64}
    (h : machine.HasOperation opcode .move format n addressing)
    (hoperand : machine.operand format.width addressing = some operand) :
    machine.Loads n addressing (format.value operand) := by
  obtain ⟨hfault, hbus, hcpu⟩ := operates_of_operand h hoperand
  exact ⟨hfault, hbus, by rw [hcpu]; rfl, by rw [hcpu]; rfl, by rw [hcpu]; rfl⟩

/-- If the bus does not have the operand, the step ends in a refused access. -/
theorem fault_of_operand_eq_none {format : LoadFormat}
    (h : machine.HasOperation opcode opmode format n addressing)
    (hnone : machine.operand format.width addressing = none) :
    machine.step.fault = some .busError := by
  obtain ⟨stream, hpc, hir, hfetch⟩ := fetch_of_hasCommand h.command
  obtain ⟨location, last, hlocation, hlast, -, hlocated, -⟩ :=
    location_of_hasAddressing h.addressed hpc hir
  rw [Machine.operand, ← hlocated, ← hlast] at hnone
  rw [Fetch.ofCommand_operation] at hfetch
  rcases Fetch.operand_of_refusal hlocation hnone with ⟨behind, hsource⟩ |
    ⟨source, behind, hsource, hvalue⟩
  · rw [hsource] at hfetch
    rw [step_of_fetch_error hfetch]
  · rw [hsource] at hfetch
    have hread : (Source.operand format source).value (machine.withStream behind).bus
        (machine.withStream behind).cpu = none :=
      congrArg (Option.map format.value)
        ((source.value_withStream machine behind format.width).trans hvalue)
    obtain ⟨after, hexecute⟩ := Exec.execute_arithmetic_of_refusal hread
    rw [step_of_execute_error hfetch hexecute]

/-- A store completes if the bus accepts what is stored. -/
theorem stores_of_accepted {format : StoreFormat} {after : β}
    (h : machine.HasStore opcode format n addressing)
    (hstore : addressing.located.store machine.bus format.width
      (format.encode (machine.cpu.fp.get n)) = some after) :
    machine.Stores opcode format.width addressing (format.encode (machine.cpu.fp.get n)) := by
  obtain ⟨destination, last, hfetch, haccepted, hwritten⟩ := fetch_of_hasStore h
  obtain ⟨written, hexecute, hbus, hcpu⟩ :=
    Exec.execute_store_of_store (haccepted.trans hstore)
  have hstep := step_of_execute_ok hfetch hexecute
  refine ⟨by rw [hstep], by rw [hstep, hbus, hstore], ?_⟩
  rw [hstep, hcpu]
  exact congrArg (·.charged Exec.storeCycles) hwritten

/-- If the bus does not accept it, the step ends in a refused access. -/
theorem fault_of_store_eq_none {format : StoreFormat}
    (h : machine.HasStore opcode format n addressing)
    (hnone : addressing.located.store machine.bus format.width
      (format.encode (machine.cpu.fp.get n)) = none) :
    machine.step.fault = some .busError := by
  obtain ⟨destination, last, hfetch, hrefused, -⟩ := fetch_of_hasStore h
  obtain ⟨after, hexecute⟩ := Exec.execute_store_of_refusal (hrefused.trans hnone)
  rw [step_of_execute_error hfetch hexecute]

/-- A store writes what the register is in its format. -/
theorem writes_of_hasStore {format : StoreFormat}
    (h : machine.HasStore opcode format n addressing) :
    machine.Writes opcode format.width addressing (format.encode (machine.cpu.fp.get n)) :=
  ⟨stores_of_accepted h, fault_of_store_eq_none h⟩

/-- A store behind a load writes what has been loaded. -/
theorem writes_of_loads {storeOpcode : UInt16} {format : StoreFormat} {target : Addressing}
    {x : Double} (hloads : machine.Loads n addressing x)
    (hstore : machine.step.machine.HasStore storeOpcode format n target) :
    machine.step.machine.Writes storeOpcode format.width target (format.encode x) := by
  have hwrites := writes_of_hasStore hstore
  rwa [hloads.fp_eq, Bank.get_put_self] at hwrites

/-- A store that the bus does not refuse completes. -/
theorem stores_of_hasStore {format : StoreFormat}
    (h : machine.HasStore opcode format n addressing)
    (hfault : machine.step.fault ≠ some .busError) :
    machine.Stores opcode format.width addressing (format.encode (machine.cpu.fp.get n)) := by
  cases hstore : addressing.located.store machine.bus format.width
      (format.encode (machine.cpu.fp.get n)) with
  | none => exact absurd (fault_of_store_eq_none h hstore) hfault
  | some after => exact stores_of_accepted h hstore

end Machine

end M68Fpu
