import M68Fpu.Condition
import M68Fpu.Encoding.Command
import M68Fpu.Instruction.Operand

/-!
# Instructions

An instruction with everything that the instruction stream says about it. What is left to execution
are registers, memory and the hook before a branch.
-/

namespace M68Fpu

/-- Where an arithmetic instruction takes its source from. -/
inductive Source where
  | register (n : Fin 8)
  | operand (format : LoadFormat) (operand : Operand)
  deriving DecidableEq, Repr

/-- The instructions of the FPU. -/
inductive Instruction where
  /-- An operation on a source and a register. -/
  | arithmetic (opmode : Opmode) (source : Source) (destination : Fin 8)
  | store (format : StoreFormat) (source : Fin 8) (destination : Destination)
  | loadControl (register : ControlRegister) (source : Operand)
  | storeControl (register : ControlRegister) (destination : Destination)
  /-- Registers pushed, in the order of the list, on the stack at an address register. -/
  | storeMultiple (base : Fin 8) (registers : List (Fin 8))
  /-- Registers popped, in the order of the list, from the stack at an address register. -/
  | loadMultiple (base : Fin 8) (registers : List (Fin 8))
  | branch (condition : Condition) (target : UInt32)
  /-- A save of the internal state, of which there is none. -/
  | saveFrame (destination : Destination)
  /-- A restore of the internal state, which is discarded. -/
  | restoreFrame (source : Operand)
  deriving DecidableEq, Repr

/-! ## Register lists -/

/-- The numbers of the bits that are set in a list byte, lowest first. -/
def listedBits (list : UInt8) : List (Fin 8) :=
  (List.finRange 8).filter fun n => list.toNat.testBit n

/-- The registers that a list byte stores: bit `n` stands for register `n`. -/
def storedRegisters (list : UInt8) : List (Fin 8) := listedBits list

/-- The registers that a list byte loads: bit `n` stands for register `7 - n`. -/
def loadedRegisters (list : UInt8) : List (Fin 8) := (listedBits list).map Fin.rev

end M68Fpu
