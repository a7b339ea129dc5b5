import M68Fpu.Bus.Basic
import M68Fpu.Encoding.Opcode
import M68Fpu.Instruction.Basic

/-!
# The instruction stream

Reading an instruction. All that is fetched comes from the program counter on, word after word, and
all that can be wrong with an encoding is found here, before anything is executed: a fetch can
change nothing but the program counter and the instruction register.
-/

namespace M68Fpu

/-- The state of the instruction stream. -/
structure InstructionStream where
  /-- The address of the instruction, for messages. -/
  start : UInt32
  /-- The address of the next word. -/
  pc : UInt32
  /-- The opcode fetched last. -/
  ir : UInt16
  /-- The reads so far. -/
  events : List BusEvent := []

/-- Reading from the instruction stream of a bus. -/
abbrev Fetch (β : Type) := ReaderT β (EStateM Fault InstructionStream)

namespace Fetch

variable {β α : Type}

/-! ## Words and longs -/

/-- Ends the instruction at its address. -/
def reject (cause : DecodeError) : Fetch β α := fun _ stream =>
  .error (.decode cause stream.start) stream

/-- The value of a field that has one. -/
def require (value : Option α) (cause : DecodeError) : Fetch β α :=
  match value with
  | some value => pure value
  | none => reject cause

/-- The value of a field, or the reason why it has none. -/
def accept : Except DecodeError α → Fetch β α
  | .ok value => pure value
  | .error cause => reject cause

variable [Bus β]

/-- The next word. The program counter moves only if the bus has it. -/
def word : Fetch β UInt16 := fun bus stream =>
  let answer := Bus.read16 bus stream.pc
  let event := BusEvent.read .program .word stream.pc (answer.map UInt16.toUInt32)
  let stream := { stream with events := stream.events ++ [event] }
  match answer with
  | some value => .ok value { stream with pc := stream.pc + 2 }
  | none => .error .busError stream

/-- The next long, in one access. -/
def long : Fetch β UInt32 := fun bus stream =>
  let answer := Bus.read32 bus stream.pc
  let event := BusEvent.read .program .long stream.pc answer
  let stream := { stream with events := stream.events ++ [event] }
  match answer with
  | some value => .ok value { stream with pc := stream.pc + 4 }
  | none => .error .busError stream

/-! ## Operands -/

/-- A resolved operand location: the immediate data of the stream, if it is that, are still to be
read. -/
inductive Location where
  | dataRegister (n : Fin 8)
  | memory (place : Reference)
  | immediate
  deriving DecidableEq, Repr

/-- Why the address field of an opcode cannot serve an access. -/
def unsupported (access : Access) (opcode : UInt16) : DecodeError :=
  let field := addressField opcode
  .addressingMode access (UInt8.ofNat (EffectiveAddress.modeOf field))
    (UInt8.ofNat (EffectiveAddress.registerOf field))

/-- A place that the access may use, with its extension words. -/
def locate (access : Access) : EffectiveAddress → Fetch β Location
  | .dataRegister n => pure (.dataRegister n)
  | .indirect n => pure (.memory (.indirect n))
  | .postIncrement n => pure (.memory (.postIncrement n))
  | .preDecrement n => pure (.memory (.preDecrement n))
  | .displaced n => return .memory (.displaced n (signExtendWord (← word)))
  | .indexed n => do
    let extension ← word
    return .memory (.indexed n (← require (Index.decode extension) (.indexFormat extension)))
  | .pcDisplaced => do
    let base := (← get).pc
    return .memory (.absolute (base + signExtendWord (← word)))
  | .absoluteLong => do
    let high ← word
    let low ← word
    return .memory (.absolute (UInt32.ofNat (high.toNat * 0x10000 + low.toNat)))
  | .immediate => pure .immediate
  | .addressRegister _ | .pcIndexed | .absoluteShort => do reject (unsupported access (← get).ir)

/-- The address field of the opcode, with its extension words. -/
def location (access : Access) : Fetch β Location := do
  let opcode := (← get).ir
  let place ← require
    ((EffectiveAddress.decode (addressField opcode)).filter access.supports)
    (unsupported access opcode)
  locate access place

/-- The immediate data of an operand. A byte takes a whole word, of which the high byte does not
count. -/
def immediate : Width → Fetch β UInt64
  | .byte => return (← word).toUInt8.toUInt64
  | .word => return (← word).toUInt64
  | .long => return (← long).toUInt64
  | .quad | .extended => do
    let high ← long
    let low ← long
    return joinLongs high low

def operand (width : Width) : Fetch β Operand := do
  match ← location ⟨width, .read⟩ with
  | .dataRegister n => pure (.dataRegister n)
  | .memory place => pure (.memory place)
  | .immediate => return .immediate (← immediate width)

/-- A destination. There is none in the instruction stream. -/
def destination (width : Width) : Fetch β Destination := do
  match ← location ⟨width, .write⟩ with
  | .dataRegister n => pure (.dataRegister n)
  | .memory place => pure (.memory place)
  | .immediate => reject (unsupported ⟨width, .write⟩ (← get).ir)

/-! ## Commands -/

def arithmetic (source : CommandSource) (destination : Fin 8) (code : UInt8) :
    Fetch β Instruction := do
  let opmode ← require (Opmode.decode code) (.unknownOpmode code)
  match source with
  | .register n => pure (.arithmetic opmode (.register n) destination)
  | .memory format =>
    let format ← accept format.loadFormat
    return .arithmetic opmode (.operand format (← operand format.width)) destination

def moveToMemory (format : Format) (source : Fin 8) : Fetch β Instruction := do
  let format ← accept format.storeFormat
  return .store format source (← destination format.width)

def moveControl (toMemory : Bool) (select : UInt8) : Fetch β Instruction := do
  let register ← require (ControlRegister.decode select) (.unknownControlRegister select toMemory)
  if toMemory then
    return .storeControl register (← destination .long)
  else
    return .loadControl register (← operand .long)

/-- The address register of a register list. The address field is looked at only if something is
moved. -/
def stack (direction : Direction) (registers : List (Fin 8)) : Fetch β (Fin 8) := do
  unless registers.isEmpty do
    discard (location ⟨.extended, direction⟩)
  return EffectiveAddress.registerOf (addressField (← get).ir)

/-- A command that moves a list of registers. Only static lists are known: pushed in mode 0, popped
in mode 2. -/
def moveMultiple (toMemory : Bool) (mode list : UInt8) : Fetch β Instruction := do
  if toMemory then
    unless mode = 0 do reject (.multipleMode mode)
    let registers := storedRegisters list
    return .storeMultiple (← stack .write registers) registers
  else
    unless mode = 2 do reject (.multipleMode mode)
    let registers := loadedRegisters list
    return .loadMultiple (← stack .read registers) registers

/-- What follows a command word. -/
def ofCommand : Command → Fetch β Instruction
  | .arithmetic source destination code => arithmetic source destination code
  | .moveToMemory format source => moveToMemory format source
  | .moveControl toMemory select => moveControl toMemory select
  | .moveMultiple toMemory mode list => moveMultiple toMemory mode list

/-- A command word and what follows it. -/
def command : Fetch β Instruction := do
  let second ← word
  ofCommand (← require (Command.decode second) (.unknownClass (Command.classField second)))

/-! ## Instructions -/

/-- A conditional branch. Displacements count from the word after the opcode. -/
def branch (displacement : Fetch β UInt32) : Fetch β Instruction := do
  let code := addressField (← get).ir
  let condition ← require (Condition.decode code) (.unknownCondition code)
  let base := (← get).pc
  return .branch condition (base + (← displacement))

/-- The rest of an instruction of the general group. -/
def general : Fetch β Instruction := do
  let opcode := (← get).ir
  match ← require (GeneralOp.decode opcode) (.unknownOperation (operationField opcode)) with
  | .command => command
  | .branchWord => branch (signExtendWord <$> word)
  | .branchLong => branch long

/-- The rest of an instruction of the state frame group. -/
def stateFrame : Fetch β Instruction := do
  let opcode := (← get).ir
  match ← require (StateFrameOp.decode opcode)
      (.unknownFrameOperation (operationField opcode)) with
  | .save => return .saveFrame (← destination .long)
  | .restore => return .restoreFrame (← operand .long)

/-- An opcode, which goes to the instruction register. -/
def opcode : Fetch β UInt16 := do
  let opcode ← word
  modify fun stream => { stream with ir := opcode }
  return opcode

def instruction : Fetch β Instruction := do
  let opcode ← opcode
  match OpcodeGroup.decode opcode with
  | .general => general
  | .stateFrame => stateFrame
  | .unassigned => throw (.illegalInstruction opcode)

end Fetch

end M68Fpu
