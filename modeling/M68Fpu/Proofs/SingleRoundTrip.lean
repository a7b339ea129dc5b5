import M68Fpu.Bus.Flat
import M68Fpu.Proofs.Binary.SingleConversion
import M68Fpu.Proofs.OperandMemory

/-!
# Singles loaded and stored

Every single is a number of a double, so a single that is loaded and stored comes back as it was; a
NaN that signals comes back quiet. A double that is stored is rounded once. What has been stored is
a single that does not signal, so loading and storing it again changes nothing
(`Machine.roundTripsSingles`).
-/

namespace M68Fpu

namespace Machine

variable {β : Type} [Bus β] {machine : Machine β} {opcode storeOpcode : UInt16} {n : Fin 8}
  {addressing target : Addressing}

/-- A store behind a load of a single writes it narrowed again. -/
theorem writes_of_loaded_single {p : UInt32}
    (hload : machine.HasOperation opcode .move .single n addressing)
    (hoperand : machine.operand .long addressing = some p.toUInt64)
    (hstore : machine.step.machine.HasStore storeOpcode .single n target) :
    machine.step.machine.Writes storeOpcode .long target
      (Single.mk p).widen.narrow.bits.toUInt64 := by
  have hwrites := writes_of_loads (loads_of_operand hload hoperand) hstore
  rwa [LoadFormat.value, UInt32.toUInt32_toUInt64] at hwrites

/-- The step of a store of a register as the single `y`, and what comes of `y` afterwards. -/
structure StoresSingle (machine : Machine β) (opcode : UInt16) (n : Fin 8)
    (addressing : Addressing) (y : Single) : Prop where
  narrows : (machine.cpu.fp.get n).Narrows y
  writes : machine.Writes opcode .long addressing y.bits.toUInt64
  /-- Memory and data registers have `y` where it was stored. -/
  rereads [ByteMemory β] {source : Addressing} {operand : UInt64}
    (hfault : machine.step.fault ≠ some .busError)
    (hlocated : source.located = addressing.located)
    (hoperand : machine.step.machine.operand .long source = some operand) :
    operand = y.bits.toUInt64
  /-- If `y` is loaded into any register, a store writes it again. -/
  repeats {loadOpcode storeOpcode : UInt16} {k : Fin 8} {source target : Addressing}
    (hload : machine.step.machine.HasOperation loadOpcode .move .single k source)
    (hoperand : machine.step.machine.operand .long source = some y.bits.toUInt64)
    (hstore : machine.step.machine.step.machine.HasStore storeOpcode .single k target) :
    machine.step.machine.step.fault = none ∧
      machine.step.machine.step.machine.Writes storeOpcode .long target y.bits.toUInt64

theorem storesSingle_of_hasStore (h : machine.HasStore opcode .single n addressing) :
    machine.StoresSingle opcode n addressing (machine.cpu.fp.get n).narrow where
  narrows := Double.narrows_narrow _
  writes := writes_of_hasStore h
  rereads hfault hlocated hoperand := operand_of_hasStore h hfault hlocated hoperand
  repeats hload hoperand hstore := by
    have hwrites := writes_of_loaded_single hload hoperand hstore
    rw [Double.narrow_widen_narrow] at hwrites
    exact ⟨(loads_of_operand hload hoperand).fault_eq, hwrites⟩

/-- Singles survive a round trip. -/
structure RoundTripsSingles (machine : Machine β) : Prop where
  /-- A single that is loaded and stored comes back, with its quiet bit set if it is a NaN that
  signals. -/
  returns {opcode storeOpcode : UInt16} {n : Fin 8} {addressing target : Addressing} {p : UInt32}
    (hload : machine.HasOperation opcode .move .single n addressing)
    (hoperand : machine.operand .long addressing = some p.toUInt64)
    (hstore : machine.step.machine.HasStore storeOpcode .single n target) :
    machine.step.fault = none ∧
      machine.step.machine.Writes storeOpcode .long target
        (if (Single.mk p).IsSignalling then p ||| 0x400000 else p).toUInt64
  stores {opcode : UInt16} {n : Fin 8} {addressing : Addressing}
    (h : machine.HasStore opcode .single n addressing) :
    ∃ y, machine.StoresSingle opcode n addressing y

theorem roundTripsSingles (machine : Machine β) : machine.RoundTripsSingles where
  returns {_ _ _ _ _ p} hload hoperand hstore := by
    have hwrites := writes_of_loaded_single hload hoperand hstore
    rw [Single.bits_narrow_widen] at hwrites
    exact ⟨(loads_of_operand hload hoperand).fault_eq, hwrites⟩
  stores h := ⟨_, storesSingle_of_hasStore h⟩

/-- A machine about to load the single in D0 and to store it in D1. -/
def aboutToReturnSingle : Machine FlatMemory where
  cpu := { pc := 0x400, data := ⟨#v[0xFF800001, 0, 0, 0, 0, 0, 0, 0]⟩ }
  bus := .ofProgram 0x10000 0x400 [0xF2, 0x00, 0x44, 0x80, 0xF2, 0x01, 0x64, 0x80]

/-- A NaN that signals comes back quiet, with its sign and its payload. -/
theorem roundTripsSingles_signalling :
    aboutToReturnSingle.step.machine.step.machine.cpu.data.get 1 = 0xFFC00001 := by
  have hload : aboutToReturnSingle.HasOperation 0xF200 .move .single 1
      (.dataRegister 0 aboutToReturnSingle.cpu.address) := by
    refine ⟨?_, hasAddressing_dataRegister (by decide) (by decide)⟩
    constructor <;> decide +kernel
  have hoperand : aboutToReturnSingle.operand .long (.dataRegister 0 aboutToReturnSingle.cpu.address)
      = some (0xFF800001 : UInt32).toUInt64 := by decide +kernel
  have hstore : aboutToReturnSingle.step.machine.HasStore 0xF201 .single 1
      (.dataRegister 1 aboutToReturnSingle.step.machine.cpu.address) := by
    refine ⟨?_, hasAddressing_dataRegister (by decide) (by decide)⟩
    constructor <;> decide +kernel
  obtain ⟨-, hwrites⟩ := (roundTripsSingles aboutToReturnSingle).returns hload hoperand hstore
  rw [(hwrites.of_accepted rfl).cpu_eq]
  exact (Bank.get_put_self _ _ _).trans (by decide)

end Machine

end M68Fpu
