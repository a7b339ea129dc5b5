import M68Fpu.Machine.Step
import M68Fpu.Proofs.Checked.Encoding

/-!
# An interpreter that checks what it relies on

A second way to execute an instruction: fetching and executing take turns on one machine, a location
is resolved each time that an operand is used, and register numbers are what the words of the
instruction hold. Each operation that needs something to be so checks it first, and panics if it is
not:

* a register number has to be below eight, and an opcode in the table of opcodes
  (`Checked.register`, `Checked.groupOf`);
* the shift of an index and that of a list bit have to be less than their type is wide, and the
  differences that are taken of numbers have to stay in their type (`Checked.shiftLeft`,
  `Checked.subtract`, `Checked.loadedBy`);
* an access to an operand has a case only for some of the ways in which a location can resolve
  (`Checked.readResolved`, `Checked.writeResolved`), and the resolution of a location only for those
  that an access may use (`Checked.resolve`).

A panic is no fault: a step that panics has no outcome at all. The cycle count has no bound here, as
everywhere in the library.
-/

namespace M68Fpu

/-- What ends a checked action early. -/
inductive Checked.Stop where
  | fault (fault : Fault)
  | panic (cause : Checked.Panic)
  deriving DecidableEq, Repr

/-- A machine in the middle of an instruction. -/
structure Checked.State (β : Type) where
  machine : Machine β
  /-- The address of the instruction, for messages. -/
  start : UInt32

/-- Actions on a machine that may end in a fault or in a panic. -/
abbrev Checked (β : Type) := EStateM Checked.Stop (Checked.State β)

namespace Checked

variable {β α : Type}

/-! ## Elementary actions -/

/-- An action of execution. -/
def ofExec (action : Exec β α) : Checked β α := fun state =>
  match action state.machine with
  | .ok value machine => .ok value { state with machine }
  | .error fault machine => .error (.fault fault) { state with machine }

/-- A fetch from the instruction stream of the machine. What it reads is recorded behind what has
been recorded before. -/
def ofFetch (fetch : Fetch β α) : Checked β α := fun state =>
  match fetch state.machine.bus
      { state.machine.stream state.start with events := state.machine.events } with
  | .ok value stream => .ok value ⟨state.machine.withStream stream, stream.start⟩
  | .error fault stream => .error (.fault fault) ⟨state.machine.withStream stream, stream.start⟩

def panic (cause : Panic) : Checked β α := throw (.panic cause)

/-- The result of a checked operation. -/
def orPanic : Except Panic α → Checked β α
  | .ok value => pure value
  | .error cause => panic cause

/-- Ends the instruction at its address. -/
def reject (cause : DecodeError) : Checked β α := ofFetch (Fetch.reject cause)

def require (value : Option α) (cause : DecodeError) : Checked β α :=
  ofFetch (Fetch.require value cause)

def accept (value : Except DecodeError α) : Checked β α := ofFetch (Fetch.accept value)

def cpu : Checked β Cpu := ofExec Exec.cpu

def modifyCpu (change : Cpu → Cpu) : Checked β Unit := ofExec (Exec.modifyCpu change)

def charge (cycles : Nat) : Checked β Unit := ofExec (Exec.charge cycles)

/-- Sets the address of the instruction. -/
def setStart (start : UInt32) : Checked β Unit := modify fun state => { state with start }

/-! ## Registers -/

/-- The register with a number, in whatever bank. -/
def register (number : Nat) : Checked β (Fin 8) :=
  if h : number < 8 then pure ⟨number, h⟩ else panic .outOfBounds

def data (number : UInt8) : Checked β UInt32 := do
  let n ← register number.toNat
  return (← cpu).data.get n

def address (number : UInt8) : Checked β UInt32 := do
  let n ← register number.toNat
  return (← cpu).address.get n

def fp (number : Nat) : Checked β Double := do
  let n ← register number
  return (← cpu).fp.get n

def setData (number : UInt8) (value : UInt32) : Checked β Unit := do
  ofExec (Exec.setData (← register number.toNat) value)

def setAddress (number : UInt8) (value : UInt32) : Checked β Unit := do
  ofExec (Exec.setAddress (← register number.toNat) value)

def setFp (number : Nat) (value : Double) : Checked β Unit := do
  ofExec (Exec.setFp (← register number) value)

/-! ## Arithmetic -/

def shiftLeft (value : UInt32) (count : UInt16) : Checked β UInt32 :=
  if count.toNat < 32 then pure (value <<< count.toUInt32) else panic .overflow

/-- The difference of two signed numbers. -/
def subtract (first second : Int32) : Checked β Int32 :=
  if Int32.minValue.toInt ≤ first.toInt - second.toInt ∧
      first.toInt - second.toInt ≤ Int32.maxValue.toInt then
    pure (first - second)
  else panic .overflow

/-- Whether a bit of a list byte is set. -/
def listed (list : UInt8) (bit : Nat) : Checked β Bool :=
  if bit < 8 then pure (list &&& (1 <<< UInt8.ofNat bit) != 0) else panic .overflow

/-- The number of the register that a list bit loads. -/
def loadedBy (bit : Nat) : Checked β Nat :=
  if bit ≤ 7 then pure (7 - bit) else panic .overflow

variable [Bus β]

def word : Checked β UInt16 := ofFetch Fetch.word

def long : Checked β UInt32 := ofFetch Fetch.long

/-! ## Places -/

/-- A resolved location: the immediate data of the stream, if it is that, are still to be read. -/
inductive Resolved where
  | dataRegister (number : UInt8)
  | memory (address : UInt32)
  | immediate
  deriving DecidableEq, Repr

/-- How far an access moves the address register with a number. -/
def step (width : Width) (number : UInt8) : UInt32 :=
  if number = 7 ∧ width = .byte then 2 else UInt32.ofNat width.bytes

/-- The index of an extension word. Bit 8 marks the full format, which is not implemented. -/
def index (extension : UInt16) : Checked β UInt32 := do
  if masked extension 8 1 != 0 then reject (.indexFormat extension)
  let number := (masked extension 12 7).toUInt8
  let whole ← if masked extension 15 1 != 0 then address number else data number
  let count := if masked extension 11 1 != 0 then whole else signExtendWord whole.toUInt16
  return (← shiftLeft count (masked extension 9 3)) + signExtendByte extension.toUInt8

/-- A location that the access may use, with its extension words and the register that it moves. No
access may use an address register, a short address, or an index behind the program counter, so
these have no resolution. -/
def resolve (access : Access) : Place → Checked β Resolved
  | .dataRegister number => return .dataRegister number
  | .indirect number => return .memory (← address number)
  | .postIncrement number => do
    let place ← address number
    setAddress number (place + step access.width number)
    return .memory place
  | .preDecrement number => do
    setAddress number ((← address number) - step access.width number)
    return .memory (← address number)
  | .displaced number => do
    let displacement ← signExtendWord <$> word
    return .memory ((← address number) + displacement)
  | .indexed number => do
    let base ← address number
    let extension ← word
    return .memory (base + (← index extension))
  | .pcDisplaced => do
    let base := (← cpu).pc
    return .memory (base + signExtendWord (← word))
  | .absoluteLong => do
    let high ← word
    let low ← word
    return .memory (UInt32.ofNat (high.toNat * 0x10000 + low.toNat))
  | .immediate => return .immediate
  | .addressRegister _ | .pcIndexed | .absoluteShort => panic .missingCase

/-- Resolves the address field of the opcode. -/
def locate (access : Access) : Checked β Resolved := do
  let opcode := (← cpu).ir
  let place ← orPanic (Place.decode (masked opcode 0 0x3F).toUInt8)
  resolve access (← require (place.filter (supports access)) (Fetch.unsupported access opcode))

/-! ## Operands -/

/-- Reads from where a location resolves. Data registers hold no more than 32 bits, and there are no
immediate extended slots. -/
def readResolved (width : Width) : Resolved → Checked β UInt64
  | .memory address => ofExec (Exec.readMemory width address)
  | .dataRegister number =>
    match width with
    | .byte | .word | .long => return (← data number).toUInt64
    | .quad | .extended => panic .missingCase
  | .immediate =>
    match width with
    | .byte | .word | .long | .quad => ofFetch (Fetch.immediate width)
    | .extended => panic .missingCase

def readOperand (width : Width) : Checked β UInt64 := do
  readResolved width (← locate ⟨width, .read⟩)

/-- Writes to where a location resolves. Nothing but a long goes to a register. -/
def writeResolved (width : Width) (value : UInt64) : Resolved → Checked β Unit
  | .memory address => ofExec (Exec.writeMemory width address value)
  | .dataRegister number =>
    match width with
    | .long => setData number value.toUInt32
    | .byte | .word | .quad | .extended => panic .missingCase
  | .immediate => panic .missingCase

def writeOperand (width : Width) (value : UInt64) : Checked β Unit := do
  writeResolved width value (← locate ⟨width, .write⟩)

/-! ## Commands -/

def source : Source → Checked β Double
  | .register number => fp number.toNat
  | .memory format => do
    let format ← accept format.loadFormat
    return format.value (← readOperand format.width)

def arithmetic (operand : Source) (destination code : UInt8) : Checked β Unit := do
  let opmode ← require (Opmode.decode code) (.unknownOpmode code)
  let value ← source operand
  let result := opmode.apply (← fp destination.toNat) value
  if opmode.writesBack then setFp destination.toNat result
  if opmode.setsConditionCodes then ofExec (Exec.report result)
  charge opmode.cycles

def moveToMemory (format : Format) (number : UInt8) : Checked β Unit := do
  let value ← fp number.toNat
  let format ← accept format.storeFormat
  writeOperand format.width (format.encode value)
  charge Exec.storeCycles

def moveControl (toMemory : Bool) (select : UInt8) : Checked β Unit := do
  let register ← require (ControlRegister.decode select) (.unknownControlRegister select toMemory)
  if toMemory then
    writeOperand .long (register.get (← cpu)).toUInt64
  else
    modifyCpu (register.put (← readOperand .long).toUInt32)
  charge Exec.controlCycles

/-- Does something for each bit that is set in a list. -/
def forListed (list : UInt8) (move : Nat → Checked β Unit) : (bits : List Nat) → Checked β Unit
  | [] => pure ()
  | bit :: rest => do
    if ← listed list bit then move bit
    forListed list move rest

/-- Pushes the register of a list bit. -/
def push (bit : Nat) : Checked β Unit := do
  writeOperand .extended (← fp bit).bits
  charge Exec.multipleCycles

/-- Pops the register of a list bit. -/
def pop (bit : Nat) : Checked β Unit := do
  let bits ← readOperand .extended
  setFp (← loadedBy bit) ⟨bits⟩
  charge Exec.multipleCycles

def moveMultiple (toMemory : Bool) (mode list : UInt8) : Checked β Unit := do
  if toMemory then
    unless mode = 0 do reject (.multipleMode mode)
    forListed list push (List.range 8)
  else
    unless mode = 2 do reject (.multipleMode mode)
    forListed list pop (List.range 8)

def ofFields : Fields → Checked β Unit
  | .arithmetic operand destination code => arithmetic operand destination code
  | .moveToMemory format number => moveToMemory format number
  | .moveControl toMemory select => moveControl toMemory select
  | .moveMultiple toMemory mode list => moveMultiple toMemory mode list

/-- A command word and what it says. -/
def command : Checked β Unit := do
  let second ← word
  let fields ← orPanic (Fields.decode second)
  ofFields (← require fields (.unknownClass (Command.classField second)))

/-! ## Branches -/

def condition : Checked β Condition := do
  let code := addressField (← cpu).ir
  require (Condition.decode code) (.unknownCondition code)

/-- Adds a displacement to the program counter. -/
def jump (displacement : Int32) : Checked β Unit :=
  modifyCpu fun cpu => { cpu with pc := cpu.pc + displacement.toUInt32 }

/-- A branch with a 16-bit displacement, which counts from in front of the displacement. -/
def branchWord : Checked β Unit := do
  let condition ← condition
  let displacement := (← word).toInt16.toInt32
  if condition.holds (← cpu).fpsr then
    ofExec Exec.traceBranch
    jump (← subtract displacement 2)
  charge Exec.branchCycles

/-- A branch with a 32-bit displacement. The difference wraps around. -/
def branchLong : Checked β Unit := do
  let condition ← condition
  let displacement := (← long).toInt32
  if condition.holds (← cpu).fpsr then
    ofExec Exec.traceBranch
    jump (displacement - 4)
  charge Exec.branchCycles

/-! ## Instructions -/

/-- The rest of an instruction of the general group. -/
def general : Checked β Unit := do
  setStart ((← cpu).pc - 2)
  let opcode := (← cpu).ir
  match ← require (GeneralOp.decode opcode) (.unknownOperation (operationField opcode)) with
  | .command => command
  | .branchWord => branchWord
  | .branchLong => branchLong

/-- The rest of an instruction of the state frame group. -/
def stateFrame : Checked β Unit := do
  setStart ((← cpu).pc - 2)
  let opcode := (← cpu).ir
  match ← require (StateFrameOp.decode opcode)
      (.unknownFrameOperation (operationField opcode)) with
  | .save => writeOperand .long 0
  | .restore => discard (readOperand .long)

/-- The length of the table of opcodes. -/
def opcodeCount : Nat := 65536

/-- The entry of an opcode in the table. -/
def groupOf (opcode : UInt16) : Checked β OpcodeGroup :=
  if opcode.toNat < opcodeCount then pure (OpcodeGroup.decode opcode) else panic .outOfBounds

def ofOpcode (opcode : UInt16) : Checked β Unit := do
  match ← groupOf opcode with
  | .general => general
  | .stateFrame => stateFrame
  | .unassigned => ofExec (throw (.illegalInstruction opcode))

def instruction : Checked β Unit := do
  setStart (← cpu).pc
  let opcode ← word
  modifyCpu fun cpu => { cpu with ir := opcode }
  ofOpcode opcode

/-! ## Calls -/

/-- The outcome of an action, unless it panics. What has been recorded before is dropped. -/
def outcome (action : Checked β Unit) (state : State β) : Except Panic (Outcome β) :=
  match action { state with machine := { state.machine with events := [] } } with
  | .ok () last => .ok ⟨none, last.machine⟩
  | .error (.fault fault) last => .ok ⟨some fault, last.machine⟩
  | .error (.panic cause) _ => .error cause

/-- Executes one instruction. A fault stops the processor. -/
def performStep (state : State β) : Except Panic (Outcome β) := do
  let outcome ← instruction.outcome state
  match outcome.fault with
  | none => return outcome
  | some _ =>
    let stopped := outcome.machine.mapCpu fun cpu => { cpu with stopped := true }
    return { outcome with machine := stopped }

def finishGeneral (state : State β) : Except Panic (Outcome β) := general.outcome state

def finishStateFrame (state : State β) : Except Panic (Outcome β) := stateFrame.outcome state

end Checked

end M68Fpu
