import M68Fpu.Bus.Basic
import M68Fpu.Fault
import M68Fpu.Registers
import M68Fpu.Word

/-!
# A processor on a bus

The state of execution, and the elementary actions of it: register changes and uses of the bus, each
of which is recorded. A fault ends execution and keeps the state reached.
-/

namespace M68Fpu

/-- A processor on a bus. -/
structure Machine (β : Type) where
  cpu : Cpu := {}
  bus : β
  /-- The uses of the bus by the latest step or reset, oldest first. -/
  events : List BusEvent := []

/-- How a step or a reset ended: the fault, if there was one, and the state reached. -/
structure Outcome (β : Type) where
  fault : Option Fault
  machine : Machine β

/-- Actions on a machine that may end in a fault. -/
abbrev Exec (β : Type) := EStateM Fault (Machine β)

/-- The outcome of an action on a machine. -/
def Exec.outcome {β : Type} (action : Exec β Unit) (machine : Machine β) : Outcome β :=
  match action machine with
  | .ok () machine => ⟨none, machine⟩
  | .error fault machine => ⟨some fault, machine⟩

namespace Machine

variable {β : Type}

/-- The machine with its processor changed. -/
def mapCpu (machine : Machine β) (change : Cpu → Cpu) : Machine β :=
  { machine with cpu := change machine.cpu }

/-- The machine with one more use of the bus. -/
def record (machine : Machine β) (event : BusEvent) : Machine β :=
  { machine with events := machine.events ++ [event] }

end Machine

namespace Exec

variable {β : Type}

/-! ## Registers -/

def cpu : Exec β Cpu := fun machine => .ok machine.cpu machine

def modifyCpu (change : Cpu → Cpu) : Exec β Unit := fun machine => .ok () (machine.mapCpu change)

def setData (n : Fin 8) (value : UInt32) : Exec β Unit :=
  modifyCpu fun cpu => { cpu with data := cpu.data.put n value }

def setAddress (n : Fin 8) (value : UInt32) : Exec β Unit :=
  modifyCpu fun cpu => { cpu with address := cpu.address.put n value }

def setFp (n : Fin 8) (value : Double) : Exec β Unit :=
  modifyCpu fun cpu => { cpu with fp := cpu.fp.put n value }

def charge (cycles : Nat) : Exec β Unit :=
  modifyCpu fun cpu => { cpu with cycles := cpu.cycles + cycles }

/-! ## The bus -/

/-- The answer of the bus to an access that has been recorded. -/
def answered {α : Type} (answer : Option α) : Exec β α := fun machine =>
  match answer with
  | some value => .ok value machine
  | none => .error .busError machine

variable [Bus β]

def readByte (address : UInt32) : Exec β UInt8 := fun machine =>
  let answer := Bus.read8 machine.bus address
  answered answer (machine.record (.read .data .byte address (answer.map UInt8.toUInt32)))

def readWord (address : UInt32) : Exec β UInt16 := fun machine =>
  let answer := Bus.read16 machine.bus address
  answered answer (machine.record (.read .data .word address (answer.map UInt16.toUInt32)))

def readLong (address : UInt32) : Exec β UInt32 := fun machine =>
  let answer := Bus.read32 machine.bus address
  answered answer (machine.record (.read .data .long address answer))

/-- Goes on with the bus after a write, or with the old one if the bus refused. -/
def written (size : AccessSize) (address value : UInt32) (answer : Option β) : Exec β Unit :=
  fun machine =>
    match answer with
    | some bus => .ok () { machine.record (.write size address value true) with bus }
    | none => .error .busError (machine.record (.write size address value false))

def writeByte (address : UInt32) (value : UInt8) : Exec β Unit := fun machine =>
  written .byte address value.toUInt32 (Bus.write8 machine.bus address value) machine

def writeWord (address : UInt32) (value : UInt16) : Exec β Unit := fun machine =>
  written .word address value.toUInt32 (Bus.write16 machine.bus address value) machine

def writeLong (address value : UInt32) : Exec β Unit := fun machine =>
  written .long address value (Bus.write32 machine.bus address value) machine

def traceBranch : Exec β Unit := fun machine =>
  .ok () { machine.record .branch with bus := Bus.traceBranch machine.bus }

end Exec

end M68Fpu
