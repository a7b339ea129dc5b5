import M68Fpu.Instruction.Basic
import M68Fpu.Machine.Operand

/-!
# Execution

What each instruction does once it has been fetched. The only fault left is a refused access to an
operand; cycles are charged when the work is done.
-/

namespace M68Fpu

/-- The result of an operation. The destination is the left operand; one-operand operations ignore
it. -/
def Opmode.apply (opmode : Opmode) (destination source : Double) : Double :=
  match opmode with
  | move | tst => source
  | sqrt => source.sqrt
  | abs => source.abs
  | neg => source.neg
  | div => destination.div source
  | add => destination.add source
  | mul => destination.mul source
  | sub | cmp => destination.sub source

namespace ControlRegister

/-- The content of a control register. -/
def get : ControlRegister → Cpu → UInt32
  | fpiar, cpu => cpu.fpiar
  | fpsr, cpu => cpu.fpsr
  | fpcr, cpu => cpu.fpcr

/-- The processor with the content of a control register replaced. -/
def put : ControlRegister → UInt32 → Cpu → Cpu
  | fpiar, value, cpu => { cpu with fpiar := value }
  | fpsr, value, cpu => { cpu with fpsr := value }
  | fpcr, value, cpu => { cpu with fpcr := value }

end ControlRegister

namespace Exec

variable {β : Type}

/-! ## Cycles of the moves and branches -/

def storeCycles : Nat := 12

def controlCycles : Nat := 10

/-- The cycles of each register of a list. -/
def multipleCycles : Nat := 2

/-- The cycles of a conditional branch, taken or not. -/
def branchCycles : Nat := 7

/-! ## Instructions -/

/-- Reports a result in the condition codes. -/
def report (result : Double) : Exec β Unit :=
  modifyCpu fun cpu => { cpu with fpsr := withConditionCodes cpu.fpsr result }

variable [Bus β]

def readSource : Source → Exec β Double
  | .register n => return (← cpu).fp.get n
  | .operand format operand => format.value <$> readOperand format.width operand

def arithmetic (opmode : Opmode) (source : Source) (destination : Fin 8) : Exec β Unit := do
  let source ← readSource source
  let result := opmode.apply ((← cpu).fp.get destination) source
  if opmode.writesBack then setFp destination result
  if opmode.setsConditionCodes then report result
  charge opmode.cycles

/-- Pushes registers in extended slots, each below the one before. -/
def storeMultiple (base : Fin 8) : (registers : List (Fin 8)) → Exec β Unit
  | [] => pure ()
  | n :: rest => do
    let slot ← address .extended (.preDecrement base)
    writeMemory .extended slot ((← cpu).fp.get n).bits
    charge multipleCycles
    storeMultiple base rest

/-- Pops registers from extended slots, each above the one before. -/
def loadMultiple (base : Fin 8) : (registers : List (Fin 8)) → Exec β Unit
  | [] => pure ()
  | n :: rest => do
    let slot ← address .extended (.postIncrement base)
    setFp n ⟨← readMemory .extended slot⟩
    charge multipleCycles
    loadMultiple base rest

/-- A conditional branch. The hook runs before the program counter moves. -/
def branch (condition : Condition) (target : UInt32) : Exec β Unit := do
  if condition.holds (← cpu).fpsr then
    traceBranch
    modifyCpu fun cpu => { cpu with pc := target }
  charge branchCycles

def execute : Instruction → Exec β Unit
  | .arithmetic opmode source destination => arithmetic opmode source destination
  | .store format source destination => do
    writeDestination format.width (format.encode ((← cpu).fp.get source)) destination
    charge storeCycles
  | .loadControl register source => do
    let value ← readOperand .long source
    modifyCpu (register.put value.toUInt32)
    charge controlCycles
  | .storeControl register destination => do
    writeDestination .long (register.get (← cpu)).toUInt64 destination
    charge controlCycles
  | .storeMultiple base registers => storeMultiple base registers
  | .loadMultiple base registers => loadMultiple base registers
  | .branch condition target => branch condition target
  | .saveFrame destination => writeDestination .long 0 destination
  | .restoreFrame source => discard (readOperand .long source)

end Exec

end M68Fpu
