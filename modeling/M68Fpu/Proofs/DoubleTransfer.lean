import M68Fpu.Bus.Flat
import M68Fpu.Proofs.OperandMemory

/-!
# Doubles stored and loaded

The format of the registers themselves is moved bit by bit: what one instruction stores as a double
and the next one loads from the same address is the register as it was, whichever modes lead to the
address, and NaNs that signal are no exception (`Machine.passesDouble_store_load`).
-/

namespace M68Fpu

namespace EffectiveAddress

variable {width : Width} {cpu other : Cpu} {place : EffectiveAddress} {words : List UInt16}
  {located : Located} {addresses : Bank UInt32}

/-- The rules look at the program counter, the address registers and the data registers only. -/
theorem Rule.congr (h : place.Rule width cpu words located addresses) (hpc : other.pc = cpu.pc)
    (haddress : other.address = cpu.address) (hdata : other.data = cpu.data) :
    place.Rule width other words located addresses := by
  have hindex (extension : UInt16) : indexSum other extension = indexSum cpu extension := by
    unfold indexSum indexCount
    rw [haddress, hdata]
  cases h with
  | dataRegister n => exact haddress ▸ .dataRegister n
  | indirect n => exact haddress ▸ .indirect n
  | postIncrement n hnext => exact haddress ▸ .postIncrement n (haddress.symm ▸ hnext)
  | preDecrement n h => exact haddress ▸ .preDecrement n (haddress.symm ▸ h)
  | displaced n word h => exact haddress ▸ .displaced n word (haddress.symm ▸ h)
  | indexed n extension hbrief h =>
    exact haddress ▸ .indexed n extension hbrief (by rw [hindex, haddress]; exact h)
  | pcDisplaced word h => exact haddress ▸ .pcDisplaced word (hpc.symm ▸ h)
  | absoluteLong high low h => exact haddress ▸ .absoluteLong high low h
  | immediate => exact haddress ▸ .immediate

/-- An address register that was decremented for one operand and then incremented for another of the
same width is where it was. -/
theorem Rule.restores {k : Fin 8} {otherWords : List UInt16} {otherLocated : Located}
    {after : Bank UInt32} (hpush : Rule width cpu (.preDecrement k) words located addresses)
    (haddress : other.address = addresses)
    (hpop : Rule width other (.postIncrement k) otherWords otherLocated after) :
    after = cpu.address := by
  cases hpush with
  | @preDecrement _ down hdown =>
    cases hpop with
    | @postIncrement _ up hup =>
      have hback : up = cpu.address.get k := by
        rw [hup, haddress, Bank.get_put_self, UInt32.ofInt_add, ofInt_toNat, hdown,
          ofInt_sub_natCast, ofInt_toNat, ofInt_natCast, UInt32.sub_add_cancel]
      rw [haddress, Bank.put_put, hback, Bank.put_get]

end EffectiveAddress

namespace Contents

theorem HoldsOperand.of_cpu {contents : Contents} {cpu other : Cpu} {fields : Command}
    {access : Access} {addressing : Addressing}
    (h : contents.HoldsOperand cpu fields access addressing) (hpc : other.pc = cpu.pc)
    (haddress : other.address = cpu.address) (hdata : other.data = cpu.data) :
    contents.HoldsOperand other fields access addressing := by
  obtain ⟨hcommand, hsupported, hwords, hrule⟩ := h
  rw [← hpc] at hcommand hwords
  refine ⟨hcommand, hsupported, hwords, hrule.congr ?_ haddress hdata⟩
  show other.pc + 4 = cpu.pc + 4
  rw [hpc]

end Contents

namespace Machine

open ByteMemory (contents)

variable {β : Type} [Bus β] [ByteMemory β] {machine : Machine β} {m n : Fin 8}
  {first second : Addressing} {address : UInt32}

/-- What the two steps of a store of the register `m` and a load of the register `n` at the same
address do together. -/
structure PassesDouble (machine : Machine β) (m n : Fin 8) (first second : Addressing)
    (address : UInt32) : Prop where
  stored : machine.step.fault = none
  loaded : machine.step.machine.step.fault = none
  /-- No bit is lost, and no other register of the FPU changes. -/
  fp_eq : machine.step.machine.step.machine.cpu.fp = machine.cpu.fp.put n (machine.cpu.fp.get m)
  fpsr_eq : machine.step.machine.step.machine.cpu.fpsr = machine.cpu.fpsr
  contents_eq {other : UInt32} (h : ¬ Within address 8 other) :
    contents machine.step.machine.step.machine.bus other = contents machine.bus other
  restored {k : Fin 8} (hfirst : first.place = .preDecrement k)
    (hsecond : second.place = .postIncrement k) :
    machine.step.machine.step.machine.cpu.address = machine.cpu.address

/-- A store, and behind it a load from the same address, which the store does not overwrite, move a
register bit by bit. -/
theorem passesDouble_store_load
    (hstore : (contents machine.bus).HoldsOperand machine.cpu
      (.moveToMemory StoreFormat.double.format m) ⟨.quad, .write⟩ first)
    (hload : (contents machine.bus).HoldsOperand (machine.cpu.behind first.length first.addresses)
      (.arithmetic (.memory LoadFormat.double.format) n Opmode.move.code) ⟨.quad, .read⟩ second)
    (hfirst : first.located = .memory address) (hsecond : second.located = .memory address)
    (hapart : Apart (machine.cpu.pc + UInt32.ofNat first.length) second.length address 8)
    (hstored : machine.step.fault ≠ some .busError)
    (hloaded : machine.step.machine.step.fault ≠ some .busError) :
    machine.PassesDouble m n first second address := by
  obtain ⟨opcode, hhasStore⟩ := hasStore_of_holdsOperand hstore hstored
  have hstores := stores_of_hasStore hhasStore hstored
  have hcpu := hstores.cpu_eq
  rw [hfirst] at hcpu
  -- The load is where it was, and finds the registers that the store has left.
  have hkept : (contents machine.step.machine.bus).HoldsOperand
      (machine.cpu.behind first.length first.addresses)
      (.arithmetic (.memory LoadFormat.double.format) n Opmode.move.code) ⟨.quad, .read⟩ second :=
    hload.congr fun other hother => (contents_of_stores hstores hfirst (hapart other hother)).symm
  have hready := hkept.of_cpu (show machine.step.machine.cpu.pc = _ by rw [hcpu]; rfl)
    (by rw [hcpu]; rfl) (by rw [hcpu]; rfl)
  obtain ⟨loadOpcode, hoperation⟩ := hasOperation_of_holdsOperand hready hloaded
  cases hoperand : machine.step.machine.operand .quad second with
  | none => exact absurd (fault_of_operand_eq_none hoperation hoperand) hloaded
  | some operand =>
    obtain rfl := operand_of_hasStore hhasStore hstored (hsecond.trans hfirst.symm) hoperand
    obtain ⟨hnone, hbus, hfp, hfpsr, haddress⟩ := loads_of_operand hoperation hoperand
    refine ⟨hstores.fault_eq, hnone, ?_, ?_, ?_, ?_⟩
    · rw [hfp, hcpu]
      rfl
    · rw [hfpsr, hcpu]
    · intro other hother
      rw [hbus, contents_of_stores hstores hfirst hother]
    · intro k hpush hpop
      have hpushRule := hstore.rule
      have hpopRule := hload.rule
      rw [hpush] at hpushRule
      rw [hpop] at hpopRule
      exact haddress.trans (hpushRule.restores rfl hpopRule)

/-- A machine about to push FP1 below A0 and to pop it into FP2. -/
def aboutToPassDouble : Machine FlatMemory where
  cpu := {
    pc := 0x400
    address := Bank.fill 0x1008
    fp := ⟨#v[⟨0⟩, ⟨0x7FF0000000000001⟩, ⟨0⟩, ⟨0⟩, ⟨0⟩, ⟨0⟩, ⟨0⟩, ⟨0⟩]⟩ }
  bus := .ofProgram 0x10000 0x400 [0xF2, 0x20, 0x74, 0x80, 0xF2, 0x18, 0x55, 0x00]

/-- A NaN that signals is not quieted on its way. -/
theorem passesDouble_store_load_signalling :
    let after := aboutToPassDouble.step.machine.step.machine.cpu
    after.fp.get 2 = ⟨0x7FF0000000000001⟩ ∧ after.address.get 0 = 0x1008 := by
  have hstore : (contents aboutToPassDouble.bus).HoldsOperand aboutToPassDouble.cpu
      (.moveToMemory StoreFormat.double.format 1) ⟨.quad, .write⟩
      ⟨.preDecrement 0, [], .memory 0x1000, aboutToPassDouble.cpu.address.put 0 0x1000⟩ :=
    ⟨by decide +kernel, by decide, by decide, .preDecrement 0 (by decide)⟩
  have hload : (contents aboutToPassDouble.bus).HoldsOperand
      (aboutToPassDouble.cpu.behind 4 (aboutToPassDouble.cpu.address.put 0 0x1000))
      (.arithmetic (.memory LoadFormat.double.format) 2 Opmode.move.code) ⟨.quad, .read⟩
      ⟨.postIncrement 0, [], .memory 0x1000,
        (aboutToPassDouble.cpu.address.put 0 0x1000).put 0 0x1008⟩ :=
    ⟨by decide +kernel, by decide, by decide, .postIncrement 0 (by decide)⟩
  have hapart : Apart (0x400 + UInt32.ofNat 4) 4 0x1000 8 :=
    apart_of_offsets 0 0x404 0x1000 (by decide) (by decide)
  have hpassed := passesDouble_store_load hstore hload rfl rfl hapart (by decide +kernel)
    (by decide +kernel)
  refine ⟨?_, ?_⟩
  · rw [hpassed.fp_eq]
    exact Bank.get_put_self _ _ _
  · rw [hpassed.restored rfl rfl]
    rfl

end Machine

end M68Fpu
