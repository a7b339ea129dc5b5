import M68Fpu.Instruction.Fetch
import M68Fpu.Machine.Execute

/-!
# Steps

A step fetches an instruction and executes it; a fault in either stops the processor. A reset loads
the stack pointer and the program counter from the first two longs of memory.
-/

namespace M68Fpu

namespace Machine

variable {β : Type} [Bus β]

/-- The instruction stream of a machine, with its instruction at `start`. -/
def stream (machine : Machine β) (start : UInt32) : InstructionStream :=
  { start, pc := machine.cpu.pc, ir := machine.cpu.ir }

/-- The machine after a fetch that ended in `stream`. -/
def withStream (machine : Machine β) (stream : InstructionStream) : Machine β :=
  { machine with
    cpu := { machine.cpu with pc := stream.pc, ir := stream.ir }
    events := stream.events }

/-- Fetches an instruction and executes it. -/
def perform (machine : Machine β) (start : UInt32) (fetch : Fetch β Instruction) : Outcome β :=
  match fetch machine.bus (machine.stream start) with
  | .ok instruction stream => (Exec.execute instruction).outcome (machine.withStream stream)
  | .error fault stream => ⟨some fault, machine.withStream stream⟩

/-- Executes one instruction. A fault stops the processor. -/
def step (machine : Machine β) : Outcome β :=
  let outcome := machine.perform machine.cpu.pc Fetch.instruction
  match outcome.fault with
  | none => outcome
  | some _ =>
    { outcome with machine := outcome.machine.mapCpu fun cpu => { cpu with stopped := true } }

/-- Executes the rest of an instruction of the general group whose opcode has been fetched. A fault
does not stop the processor. -/
def finishGeneral (machine : Machine β) : Outcome β :=
  machine.perform (machine.cpu.pc - 2) Fetch.general

/-- Executes the rest of an instruction of the state frame group whose opcode has been fetched. A
fault does not stop the processor. -/
def finishStateFrame (machine : Machine β) : Outcome β :=
  machine.perform (machine.cpu.pc - 2) Fetch.stateFrame

def stackVector : UInt32 := 0

def programVector : UInt32 := 4

/-- Loads the stack pointer and the program counter, clears the FPU and lets a stopped processor
run. -/
def reset (machine : Machine β) : Outcome β :=
  let action : Exec β Unit := do
    Exec.setAddress stackPointer (← Exec.readLong stackVector)
    let pc ← Exec.readLong programVector
    Exec.modifyCpu fun cpu =>
      { cpu with pc, fp := Bank.fill ⟨0⟩, fpcr := 0, fpsr := 0, fpiar := 0, stopped := false }
  action.outcome { machine with events := [] }

/-! ## Runs -/

/-- How a bounded run ended. -/
structure RunOutcome (β : Type) extends Outcome β where
  /-- The steps executed, the one that ended in a fault included. -/
  steps : Nat

/-- Continues a run in which some steps have been executed. -/
def runFrom (steps : Nat) : (limit : Nat) → Machine β → RunOutcome β
  | 0, machine => ⟨⟨none, machine⟩, steps⟩
  | limit + 1, machine =>
    let outcome := machine.step
    match outcome.fault with
    | none => runFrom (steps + 1) limit outcome.machine
    | some _ => ⟨outcome, steps + 1⟩

/-- Steps until the first fault, and `limit` times at most. A stopped processor steps too. -/
def run (limit : Nat) (machine : Machine β) : RunOutcome β := runFrom 0 limit machine

end Machine

end M68Fpu
