import M68Fpu.Binary.Decimal
import M68Fpu.Computer

/-!
# Runs from the command line

A computer that is stepped until its processor stops or a limit is reached, and what is printed of
it at the end.
-/

namespace M68Fpu.CommandLine

/-- A computer that is being run. -/
structure Run where
  computer : Computer
  steps : Nat := 0
  /-- The fault of the latest step that had one. -/
  failure : Option Fault := none

namespace Run

/-- Whether there is nothing left to execute. -/
def finished (limit : Option Nat) (run : Run) : Bool :=
  run.computer.cpu.stopped || limit.any fun limit => decide (limit ≤ run.steps)

def step (run : Run) : Run :=
  let outcome := run.computer.step
  { computer := outcome.machine, steps := run.steps + 1, failure := outcome.fault.or run.failure }

/-- Executes up to `fuel` steps and stops when there is nothing left to execute. -/
def advance (limit : Option Nat) : (fuel : Nat) → Run → Run
  | 0, run => run
  | fuel + 1, run => if run.finished limit then run else advance limit fuel run.step

/-- Steps a run to its end. There is no result if it has none. -/
def finish (limit : Option Nat) (run : Run) : Option Run :=
  if run.finished limit then some run else run.step |>.finish limit
partial_fixpoint

/-! ## Results -/

/-- Whether a run counts as a success. An opcode that is none of the FPU's is how a program ends. -/
def succeeded (run : Run) : Bool :=
  match run.failure with
  | none | some (.illegalInstruction _) => true
  | some _ => false

end Run

/-- The line of a floating-point register: its name, its bits and its value. -/
def registerLine (cpu : Cpu) (n : Fin 8) : String :=
  let value := cpu.fp.get n
  "fp" ++ toString n.val ++ "  " ++ Hex.upper 16 value.bits.toNat ++ "  " ++ value.text ++ "\n"

def controlLine (name : String) (value : UInt32) : String :=
  name ++ " " ++ Hex.upper 8 value.toNat ++ "\n"

/-- The registers of the FPU, a line each. -/
def dump (cpu : Cpu) : String :=
  String.join ((List.finRange 8).map (registerLine cpu)) ++ controlLine "fpcr" cpu.fpcr
    ++ controlLine "fpsr" cpu.fpsr ++ controlLine "fpiar" cpu.fpiar

end M68Fpu.CommandLine
