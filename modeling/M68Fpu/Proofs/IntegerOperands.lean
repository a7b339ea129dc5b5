import M68Fpu.Bus.Flat
import M68Fpu.Proofs.Binary.IntegerConversion
import M68Fpu.Proofs.ConditionalBranch
import M68Fpu.Proofs.OperandCommand
import M68Fpu.Proofs.StatusHistory

/-!
# Integers loaded and stored

An integer of eight, 16 or 32 bits is loaded as the double that is this integer, and a register is
stored as the 32-bit integer that it is without its fraction, or as the nearer end of the range
(`Machine.convertsIntegers`). So what a load has put into a register comes back from a store: 32 bits
as they were, fewer bits with their sign extended. Neither reports anything in the status register.
-/

namespace M68Fpu

open Double (StoredAsLong)

/-- In two's complement the integer of a long is the long again. -/
theorem LoadFormat.ofInt_of_integer_long {raw : UInt64} {x : Int}
    (h : LoadFormat.longInteger.integer raw = some x) (hlow : raw.toNat < 2 ^ 32) :
    (UInt32.ofInt x).toUInt64 = raw := by
  obtain rfl := Option.some.inj h
  have hraw : raw.toUInt32.toNat = raw.toNat := by
    rw [raw.toNat_toUInt32, Nat.mod_eq_of_lt hlow]
  rw [← hraw, ofInt_signed]
  apply UInt64.toNat_inj.mp
  rw [UInt32.toNat_toUInt64, hraw]

namespace Machine

variable {β : Type} [Bus β] {machine : Machine β} {opcode : UInt16} {n : Fin 8}
  {addressing : Addressing} {format : LoadFormat} {operand : UInt64} {x : Int}

/-- The step of a load of an integer. Zero is loaded as the positive one. -/
structure LoadsInteger (machine : Machine β) (n : Fin 8) (addressing : Addressing) (x : Int)
    (y : Double) : Prop extends machine.Loads n addressing y where
  value_eq : y.value = some (.ofRat x)
  zero_eq : x = 0 → y = ⟨0⟩

theorem loadsInteger_of_operand (h : machine.HasOperation opcode .move format n addressing)
    (hoperand : machine.operand format.width addressing = some operand)
    (hinteger : format.integer operand = some x) :
    machine.LoadsInteger n addressing x (.ofInt x) := by
  have hloads := loads_of_operand h hoperand
  rw [LoadFormat.value_of_integer hinteger] at hloads
  refine ⟨hloads, Double.value_ofInt (LoadFormat.natAbs_integer_lt hinteger), ?_⟩
  rintro rfl
  exact Double.ofInt_zero

/-- A store behind a load of an integer writes it in two's complement. -/
theorem writes_of_loadsInteger {storeOpcode : UInt16} {target : Addressing}
    (hloads : machine.LoadsInteger n addressing x (.ofInt x)) (hmin : -2 ^ 31 ≤ x)
    (hmax : x < 2 ^ 31)
    (hstore : machine.step.machine.HasStore storeOpcode .longInteger n target) :
    machine.step.machine.Writes storeOpcode .long target (UInt32.ofInt x).toUInt64 := by
  have hwrites := writes_of_loads hloads.toLoads hstore
  rwa [StoreFormat.encode, Double.toLong_ofInt hmin hmax] at hwrites

/-- A load does not write to the status register, whether it completes or not. -/
theorem fpsr_of_move (h : machine.HasOperation opcode .move format n addressing) :
    machine.step.machine.cpu.fpsr = machine.cpu.fpsr := by
  cases hoperand : machine.operand format.width addressing with
  | none => exact fpsr_of_fault (fault_of_operand_eq_none h hoperand)
  | some operand => exact (loads_of_operand h hoperand).fpsr_eq

/-- Neither does a store. -/
theorem fpsr_of_store {format : StoreFormat} (h : machine.HasStore opcode format n addressing) :
    machine.step.machine.cpu.fpsr = machine.cpu.fpsr := by
  cases hstore : addressing.located.store machine.bus format.width
      (format.encode (machine.cpu.fp.get n)) with
  | none => exact fpsr_of_fault (fault_of_store_eq_none h hstore)
  | some after => rw [(stores_of_accepted h hstore).cpu_eq]

/-- Integers are converted exactly and come back unchanged. -/
structure ConvertsIntegers (machine : Machine β) : Prop where
  loads {opcode : UInt16} {format : LoadFormat} {n : Fin 8} {addressing : Addressing}
    {operand : UInt64} {x : Int}
    (h : machine.HasOperation opcode .move format n addressing)
    (hoperand : machine.operand format.width addressing = some operand)
    (hinteger : format.integer operand = some x) :
    ∃ y, machine.LoadsInteger n addressing x y
  stores {opcode : UInt16} {n : Fin 8} {addressing : Addressing}
    (h : machine.HasStore opcode .longInteger n addressing) :
    ∃ v, StoredAsLong (machine.cpu.fp.get n).value v ∧
      machine.Writes opcode .long addressing (UInt32.ofInt v).toUInt64
  /-- The sign of an integer that is loaded and stored is extended. -/
  returns {opcode storeOpcode : UInt16} {format : LoadFormat} {n : Fin 8}
    {addressing target : Addressing} {operand : UInt64} {x : Int}
    (h : machine.HasOperation opcode .move format n addressing)
    (hoperand : machine.operand format.width addressing = some operand)
    (hinteger : format.integer operand = some x)
    (hstore : machine.step.machine.HasStore storeOpcode .longInteger n target) :
    machine.step.machine.Writes storeOpcode .long target (UInt32.ofInt x).toUInt64
  /-- A long comes back as it was. -/
  returns_long {opcode storeOpcode : UInt16} {n : Fin 8} {addressing target : Addressing}
    {operand : UInt64} (h : machine.HasOperation opcode .move .longInteger n addressing)
    (hoperand : machine.operand .long addressing = some operand)
    (hstore : machine.step.machine.HasStore storeOpcode .longInteger n target) :
    machine.step.machine.Writes storeOpcode .long target operand
  fpsr_load {opcode : UInt16} {format : LoadFormat} {n : Fin 8} {addressing : Addressing}
    (h : machine.HasOperation opcode .move format n addressing) :
    machine.step.machine.cpu.fpsr = machine.cpu.fpsr
  fpsr_store {opcode : UInt16} {format : StoreFormat} {n : Fin 8} {addressing : Addressing}
    (h : machine.HasStore opcode format n addressing) :
    machine.step.machine.cpu.fpsr = machine.cpu.fpsr

theorem convertsIntegers (machine : Machine β) : machine.ConvertsIntegers where
  loads h hoperand hinteger := ⟨_, loadsInteger_of_operand h hoperand hinteger⟩
  stores h := ⟨_, Double.storedAsLong_toLong _, writes_of_hasStore h⟩
  returns h hoperand hinteger hstore := by
    obtain ⟨hmin, hmax⟩ := LoadFormat.integer_range hinteger
    exact writes_of_loadsInteger (loadsInteger_of_operand h hoperand hinteger) hmin hmax hstore
  returns_long {_ _ _ _ _ operand} h hoperand hstore := by
    have hinteger : LoadFormat.longInteger.integer operand = some (signed 32 operand.toNat) := rfl
    obtain ⟨hmin, hmax⟩ := LoadFormat.integer_range hinteger
    have hwrites :=
      writes_of_loadsInteger (loadsInteger_of_operand h hoperand hinteger) hmin hmax hstore
    rwa [LoadFormat.ofInt_of_integer_long hinteger (operand_lt hoperand)] at hwrites
  fpsr_load h := fpsr_of_move h
  fpsr_store h := fpsr_of_store h

/-- A machine about to load the least long from D0 and to store it in D1. -/
def aboutToReturnLong : Machine FlatMemory where
  cpu := { pc := 0x400, data := ⟨#v[0x80000000, 0, 0, 0, 0, 0, 0, 0]⟩ }
  bus := .ofProgram 0x10000 0x400 [0xF2, 0x00, 0x40, 0x80, 0xF2, 0x01, 0x60, 0x80]

theorem convertsIntegers_least_long :
    aboutToReturnLong.step.machine.step.machine.cpu.data.get 1 = 0x80000000 := by
  have hload : aboutToReturnLong.HasOperation 0xF200 .move .longInteger 1
      (.dataRegister 0 aboutToReturnLong.cpu.address) := by
    refine ⟨?_, hasAddressing_dataRegister (by decide) (by decide)⟩
    constructor <;> decide +kernel
  have hoperand : aboutToReturnLong.operand .long (.dataRegister 0 aboutToReturnLong.cpu.address)
      = some 0x80000000 := by decide +kernel
  have hstore : aboutToReturnLong.step.machine.HasStore 0xF201 .longInteger 1
      (.dataRegister 1 aboutToReturnLong.step.machine.cpu.address) := by
    refine ⟨?_, hasAddressing_dataRegister (by decide) (by decide)⟩
    constructor <;> decide +kernel
  have hwrites := (convertsIntegers aboutToReturnLong).returns_long hload hoperand hstore
  rw [(hwrites.of_accepted rfl).cpu_eq]
  exact Bank.get_put_self _ _ _

end Machine

end M68Fpu
