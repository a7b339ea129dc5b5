import M68Fpu.Debug.Registers
import M68Fpu.Computer

/-!
# A target for a debugger

A computer with breakpoints: bounded execution, access to registers and memory, and the set of
breakpoints.
-/

namespace M68Fpu

/-- A computer under a debugger. -/
structure Target where
  computer : Computer
  breakpoints : List UInt32 := []

namespace Target

/-! ## Execution -/

/-- Whether the program counter is on a breakpoint. -/
def hit (target : Target) : Bool := target.breakpoints.contains target.computer.cpu.pc

/-- Executes one instruction. A fault shows only in the processor, which it has stopped. -/
def step (target : Target) : Target := { target with computer := target.computer.step.machine }

/-- How a continuation ended. -/
structure Continuation where
  target : Target
  steps : Nat
  /-- Whether the last of them led to a breakpoint. -/
  hit : Bool

/-- Continues a continuation in which some instructions have been executed. -/
def continueFrom (steps : Nat) : (limit : Nat) → Target → Continuation
  | 0, target => ⟨target, steps, false⟩
  | limit + 1, target =>
    if target.computer.cpu.stopped then ⟨target, steps, false⟩
    else
      let next := target.step
      if next.hit then ⟨next, steps + 1, true⟩ else continueFrom (steps + 1) limit next

/-- Executes instructions until one leads to a breakpoint, the processor is stopped or `limit`
instructions have been executed. A breakpoint at the start does not count. -/
def resume (limit : Nat) (target : Target) : Continuation := continueFrom 0 limit target

/-! ## Registers -/

def mapCpu (target : Target) (change : Cpu → Cpu) : Target :=
  { target with computer := target.computer.mapCpu change }

def registers (target : Target) : RegisterFile := RegisterFile.ofCpu target.computer.cpu

def setRegisters (target : Target) (file : RegisterFile) : Target := target.mapCpu file.applyTo

/-- Replaces all registers by those of an image, unless it is short. -/
def writeImage (target : Target) (bytes : List UInt8) : Option Target :=
  (RegisterFile.ofBytes? bytes).map target.setRegisters

def registerValue (cpu : Cpu) : RegisterId → Nat
  | .data n => (cpu.data.get n).toNat
  | .address n => (cpu.address.get n).toNat
  | .sr => 0
  | .pc => cpu.pc.toNat
  | .fp n => (cpu.fp.get n).bits.toNat
  | .fpcr => cpu.fpcr.toNat
  | .fpsr => cpu.fpsr.toNat
  | .fpiar => cpu.fpiar.toNat

/-- The processor with the content of a register replaced; the status register has none. -/
def withRegisterValue (cpu : Cpu) (value : Nat) : RegisterId → Cpu
  | .data n => { cpu with data := cpu.data.put n (UInt32.ofNat value) }
  | .address n => { cpu with address := cpu.address.put n (UInt32.ofNat value) }
  | .sr => cpu
  | .pc => { cpu with pc := UInt32.ofNat value }
  | .fp n => { cpu with fp := cpu.fp.put n ⟨UInt64.ofNat value⟩ }
  | .fpcr => { cpu with fpcr := UInt32.ofNat value }
  | .fpsr => { cpu with fpsr := UInt32.ofNat value }
  | .fpiar => { cpu with fpiar := UInt32.ofNat value }

/-- Writes a register over the front of a buffer, unless the buffer is too short for it. -/
def readRegister (target : Target) (id : RegisterId) (buffer : List UInt8) :
    Option (List UInt8) :=
  if buffer.length < id.size then none
  else
    some (LittleEndian.encode id.size (registerValue target.computer.cpu id) ++ buffer.drop id.size)

/-- Replaces a register by what is at the front of the bytes, unless they are too few. -/
def writeRegister (target : Target) (id : RegisterId) (bytes : List UInt8) : Option Target :=
  if bytes.length < id.size then none
  else
    some (target.mapCpu fun cpu =>
      withRegisterValue cpu (LittleEndian.decode (bytes.take id.size)) id)

/-! ## Memory -/

/-- The bytes of a range of memory, unless one of them cannot be read. -/
def readMemory (target : Target) (address : UInt32) (count : Nat) : Option (List UInt8) :=
  Bus.readBytes target.computer.bus address count

/-- Writes a range of memory, and says whether all of it could be written. What comes before the
first byte that could not stays written. -/
def writeMemory (target : Target) (address : UInt32) (bytes : List UInt8) : Bool × Target :=
  let (complete, memory) := Bus.writeBytes target.computer.bus address bytes
  (complete, { target with computer := { target.computer with bus := memory } })

/-! ## Breakpoints -/

/-- Sets a breakpoint, and says whether there was none before. -/
def setBreakpoint (target : Target) (address : UInt32) : Bool × Target :=
  if target.breakpoints.contains address then (false, target)
  else (true, { target with breakpoints := address :: target.breakpoints })

/-- Clears a breakpoint, and says whether there was one before. -/
def clearBreakpoint (target : Target) (address : UInt32) : Bool × Target :=
  if target.breakpoints.contains address then
    (true, { target with breakpoints := target.breakpoints.filter (· != address) })
  else
    (false, target)

/-! ## Requests -/

/-- Why a request to resume is refused. -/
inductive ResumeError where
  /-- The request asks for a signal, and there are none. -/
  | signal
  deriving DecidableEq, Repr

def ResumeError.message : ResumeError → String
  | signal => "no support for resuming from a signal"

/-- Whether a request to resume is granted. -/
def resumeRequest (withSignal : Bool) : Except ResumeError Unit :=
  if withSignal then .error .signal else .ok ()

/-- What a target offers to a debugger. -/
structure Features where
  base : Bool
  breakpoints : Bool
  softwareBreakpoints : Bool
  resume : Bool
  singleStep : Bool
  singleRegister : Bool
  /-- A description of the registers in a document of its own. -/
  description : Option String

/-- What this target offers: the registers are those a debugger knows already. -/
def features : Features where
  base := true
  breakpoints := true
  softwareBreakpoints := true
  resume := true
  singleStep := true
  singleRegister := true
  description := none

end Target

end M68Fpu
