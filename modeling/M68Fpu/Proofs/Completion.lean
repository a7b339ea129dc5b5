import M68Fpu.Proofs.OperandAccess
import M68Fpu.Proofs.RegisterStack
import M68Fpu.Proofs.Step

/-!
# What a completed instruction has done

Executing an instruction is a sequence of register changes and accesses, but what it comes to can be
said at once: the operand that was read, the bus after the writes, and the processor, equal to the
one before but for the registers that are named (`Exec.Completed`). Nothing is said of the accesses
on the way. Every instruction that ends without a fault has had one of these effects
(`Exec.completed_execute`), so what holds of all instructions follows by going through them.
-/

namespace M68Fpu

/-! ## Register lists on a bus -/

theorem slotBelow_slotBelow (address : UInt32) (k : Nat) :
    slotBelow (slotBelow address 0) k = slotBelow address (k + 1) :=
  slotBelow_sub address k

theorem slotAbove_slotAbove (address : UInt32) (k : Nat) :
    slotAbove (slotAbove address 1) k = slotAbove address (k + 1) :=
  slotAbove_add address k

namespace Bus

variable {β : Type} [Bus β]

/-- Puts numbers into extended slots, each below the one before, unless the bus refuses one. -/
def pushSlots (bus : β) (address : UInt32) : List UInt64 → Option β
  | [] => some bus
  | value :: rest => do
    let slot := slotBelow address 0
    pushSlots (← writeLongs bus slot (Width.extended.longs value)) slot rest

/-- Loads registers from extended slots, each above the one before, unless the bus refuses one. -/
def popSlots (bus : β) (address : UInt32) (fp : Bank Double) : List (Fin 8) → Option (Bank Double)
  | [] => some fp
  | n :: rest => do
    let value ← readOperand bus .extended address
    popSlots bus (slotAbove address 1) (fp.put n ⟨value⟩) rest

variable {bus after : β} {address : UInt32}

theorem reaches_of_pushSlots {values : List UInt64}
    (h : pushSlots bus address values = some after) : Reaches bus after := by
  induction values generalizing bus address with
  | nil => cases h; exact .refl
  | cons value rest ih =>
    obtain ⟨middle, hslot, hrest⟩ := Option.bind_eq_some_iff.mp h
    exact (reaches_of_writeLongs hslot).trans (ih hrest)

end Bus

/-! ## Operands -/

section Operands

variable {β : Type} [Bus β]

/-- The value of a source operand, unless the bus refuses a part of it. A data register comes
whole. -/
def Operand.value (bus : β) (cpu : Cpu) (width : Width) : Operand → Option UInt64
  | .dataRegister n => some (cpu.data.get n).toUInt64
  | .immediate value => some value
  | .memory place => Bus.readOperand bus width (place.address width cpu)

/-- The processor after an operand has been used. -/
def Operand.moved (width : Width) (cpu : Cpu) : Operand → Cpu
  | .memory place => place.moved width cpu
  | .dataRegister _ | .immediate _ => cpu

/-- The value of the source of an operation. -/
def Source.value (bus : β) (cpu : Cpu) : Source → Option Double
  | .register n => some (cpu.fp.get n)
  | .operand format place => (place.value bus cpu format.width).map format.value

def Source.moved (cpu : Cpu) : Source → Cpu
  | .register _ => cpu
  | .operand format place => place.moved format.width cpu

/-- The bus after a write to a destination, unless it refuses a part of it. -/
def Destination.store (bus : β) (cpu : Cpu) (width : Width) (value : UInt64) :
    Destination → Option β
  | .dataRegister _ => some bus
  | .memory place => Bus.writeLongs bus (place.address width cpu) (width.longs value)

/-- The processor after a write to a destination. -/
def Destination.written (width : Width) (value : UInt64) (cpu : Cpu) : Destination → Cpu
  | .dataRegister n => { cpu with data := cpu.data.put n value.toUInt32 }
  | .memory place => place.moved width cpu

end Operands

theorem Operand.moved_eq (width : Width) (cpu : Cpu) (operand : Operand) :
    operand.moved width cpu = { cpu with address := (operand.moved width cpu).address } := by
  cases operand with
  | memory place => exact place.moved_eq width cpu
  | dataRegister | immediate => rfl

theorem Source.moved_eq (cpu : Cpu) (source : Source) :
    source.moved cpu = { cpu with address := (source.moved cpu).address } := by
  cases source with
  | register => rfl
  | operand format place => exact place.moved_eq format.width cpu

theorem Destination.written_eq (width : Width) (value : UInt64) (cpu : Cpu)
    (destination : Destination) :
    destination.written width value cpu = { cpu with
      data := (destination.written width value cpu).data
      address := (destination.written width value cpu).address } := by
  cases destination with
  | dataRegister => rfl
  | memory place => cases place <;> rfl

/-! ## Processors -/

/-- The processor after cycles have been charged. -/
def Cpu.charged (cpu : Cpu) (cycles : Nat) : Cpu := { cpu with cycles := cpu.cycles + cycles }

/-- The processor after an operation on a source and the register `destination`. -/
def Opmode.completed (opmode : Opmode) (destination : Fin 8) (source : Double) (cpu : Cpu) : Cpu :=
  let result := opmode.apply (cpu.fp.get destination) source
  { cpu with
    fp := if opmode.writesBack then cpu.fp.put destination result else cpu.fp
    fpsr := if opmode.setsConditionCodes then withConditionCodes cpu.fpsr result else cpu.fpsr
    cycles := cpu.cycles + opmode.cycles }

/-! ## Instructions -/

namespace Exec

variable {β : Type} [Bus β] {machine last : Machine β}

/-- What an instruction has done that ended without a fault. -/
inductive Completed (before after : Machine β) : Instruction → Prop
  | arithmetic {opmode : Opmode} {source : Source} {destination : Fin 8} {value : Double}
      (hvalue : source.value before.bus before.cpu = some value) (hbus : after.bus = before.bus)
      (hcpu : after.cpu = opmode.completed destination value (source.moved before.cpu)) :
      Completed before after (.arithmetic opmode source destination)
  | store {format : StoreFormat} {source : Fin 8} {destination : Destination} {value : UInt64}
      (hvalue : value = format.encode (before.cpu.fp.get source))
      (hbus : destination.store before.bus before.cpu format.width value = some after.bus)
      (hcpu : after.cpu
        = (destination.written format.width value before.cpu).charged storeCycles) :
      Completed before after (.store format source destination)
  | loadControl {register : ControlRegister} {source : Operand} {value : UInt64}
      (hvalue : source.value before.bus before.cpu .long = some value)
      (hbus : after.bus = before.bus)
      (hcpu : after.cpu
        = (register.put value.toUInt32 (source.moved .long before.cpu)).charged controlCycles) :
      Completed before after (.loadControl register source)
  | storeControl {register : ControlRegister} {destination : Destination} {value : UInt64}
      (hvalue : value = (register.get before.cpu).toUInt64)
      (hbus : destination.store before.bus before.cpu .long value = some after.bus)
      (hcpu : after.cpu = (destination.written .long value before.cpu).charged controlCycles) :
      Completed before after (.storeControl register destination)
  | storeMultiple {base : Fin 8} {registers : List (Fin 8)}
      (hbus : Bus.pushSlots before.bus (before.cpu.address.get base)
        (registers.map fun n => (before.cpu.fp.get n).bits) = some after.bus)
      (hcpu : after.cpu = { before.cpu with
        address := before.cpu.address.put base
          (before.cpu.address.get base - UInt32.ofNat (slotBytes registers))
        cycles := before.cpu.cycles + multipleCycles * registers.length }) :
      Completed before after (.storeMultiple base registers)
  | loadMultiple {base : Fin 8} {registers : List (Fin 8)} {fp : Bank Double}
      (hfp : Bus.popSlots before.bus (before.cpu.address.get base) before.cpu.fp registers
        = some fp) (hbus : after.bus = before.bus)
      (hcpu : after.cpu = { before.cpu with
        address := before.cpu.address.put base
          (before.cpu.address.get base + UInt32.ofNat (slotBytes registers))
        fp
        cycles := before.cpu.cycles + multipleCycles * registers.length }) :
      Completed before after (.loadMultiple base registers)
  | taken {condition : Condition} {target : UInt32}
      (hholds : condition.holds before.cpu.fpsr = true)
      (hbus : after.bus = Bus.traceBranch before.bus)
      (hcpu : after.cpu = { before.cpu with pc := target }.charged branchCycles) :
      Completed before after (.branch condition target)
  | notTaken {condition : Condition} {target : UInt32}
      (hholds : condition.holds before.cpu.fpsr = false) (hbus : after.bus = before.bus)
      (hcpu : after.cpu = before.cpu.charged branchCycles) :
      Completed before after (.branch condition target)
  | saveFrame {destination : Destination}
      (hbus : destination.store before.bus before.cpu .long 0 = some after.bus)
      (hcpu : after.cpu = destination.written .long 0 before.cpu) :
      Completed before after (.saveFrame destination)
  | restoreFrame {source : Operand} {value : UInt64}
      (hvalue : source.value before.bus before.cpu .long = some value)
      (hbus : after.bus = before.bus) (hcpu : after.cpu = source.moved .long before.cpu) :
      Completed before after (.restoreFrame source)

/-! ### Operands -/

theorem readOperand_ok {width : Width} {operand : Operand} {value : UInt64}
    (h : readOperand width operand machine = .ok value last) :
    operand.value machine.bus machine.cpu width = some value ∧ last.bus = machine.bus ∧
      last.cpu = operand.moved width machine.cpu := by
  cases operand with
  | dataRegister n => cases h; exact ⟨rfl, rfl, rfl⟩
  | immediate value => cases h; exact ⟨rfl, rfl, rfl⟩
  | memory place =>
    rw [readOperand, address_bind] at h
    obtain ⟨hread, hbus, hcpu, -⟩ := readMemory_ok h
    exact ⟨hread, hbus, hcpu⟩

theorem readSource_ok {source : Source} {value : Double}
    (h : readSource source machine = .ok value last) :
    source.value machine.bus machine.cpu = some value ∧ last.bus = machine.bus ∧
      last.cpu = source.moved machine.cpu := by
  cases source with
  | register n => cases h; exact ⟨rfl, rfl, rfl⟩
  | operand format operand =>
    rw [readSource, map_eq_pure_bind] at h
    obtain ⟨raw, middle, hread, hpure⟩ := bind_eq_ok_iff.mp h
    cases hpure
    obtain ⟨hraw, hbus, hcpu⟩ := readOperand_ok hread
    exact ⟨by rw [Source.value, hraw]; rfl, hbus, hcpu⟩

/-- Reading a source moves an address register at most. -/
theorem readSource_frame {source : Source} {value : Double}
    (h : readSource source machine = .ok value last) :
    last.bus = machine.bus ∧ last.cpu = { machine.cpu with address := last.cpu.address } := by
  obtain ⟨-, hbus, hcpu⟩ := readSource_ok h
  rw [hcpu]
  exact ⟨hbus, source.moved_eq machine.cpu⟩

theorem writeDestination_ok {width : Width} (hwide : 4 ≤ width.bytes) {value : UInt64}
    {destination : Destination} (h : writeDestination width value destination machine = .ok () last) :
    destination.store machine.bus machine.cpu width value = some last.bus ∧
      last.cpu = destination.written width value machine.cpu := by
  cases destination with
  | dataRegister n => cases h; exact ⟨rfl, rfl⟩
  | memory place =>
    rw [writeDestination, address_bind, writeMemory_eq_writeLongs hwide] at h
    obtain ⟨hlongs, hcpu, -⟩ := writeLongs_ok h
    exact ⟨hlongs, hcpu⟩

/-! ### Register lists -/

/-- Behind the first slot, a push goes on from the slot as from any address. -/
theorem Completed.push {base n : Fin 8} {rest : List (Fin 8)} {middle : Machine β}
    (hcpu : middle.cpu = { machine.cpu with
      address := machine.cpu.address.put base (slotBelow (machine.cpu.address.get base) 0)
      cycles := machine.cpu.cycles + multipleCycles })
    (hslot : Bus.writeLongs machine.bus (slotBelow (machine.cpu.address.get base) 0)
      (Width.extended.longs (machine.cpu.fp.get n).bits) = some middle.bus)
    (h : Completed middle last (.storeMultiple base rest)) :
    Completed machine last (.storeMultiple base (n :: rest)) := by
  have hbase : middle.cpu.address.get base = slotBelow (machine.cpu.address.get base) 0 := by
    rw [hcpu]; exact Bank.get_put_self _ _ _
  have hfp : middle.cpu.fp = machine.cpu.fp := by rw [hcpu]
  cases h with
  | storeMultiple hbus hlast =>
    rw [hbase, hfp] at hbus
    refine .storeMultiple (Option.bind_eq_some_iff.mpr ⟨_, hslot, hbus⟩) ?_
    rw [hlast, hbase, hcpu, slotBelow, sub_ofNat_sub_ofNat]
    simp only [Bank.put_put, slotBytes_cons, List.length_cons, Nat.mul_succ]
    congr 1
    omega

theorem completed_storeMultiple {base : Fin 8} {registers : List (Fin 8)}
    (h : storeMultiple base registers machine = .ok () last) :
    Completed machine last (.storeMultiple base registers) := by
  induction registers generalizing machine with
  | nil =>
    cases h
    exact .storeMultiple rfl (by simp)
  | cons n rest ih =>
    rw [storeMultiple, address_bind, cpu_bind, writeMemory_eq_writeLongs (by decide)] at h
    obtain ⟨_, written, hwrite, hrest⟩ := bind_eq_ok_iff.mp h
    obtain ⟨hslot, hcpu, -⟩ := writeLongs_ok hwrite
    rw [charge, modifyCpu_bind] at hrest
    refine Completed.push ?_ ?_ (ih hrest)
    · show { written.cpu with cycles := written.cpu.cycles + multipleCycles } = _
      rw [hcpu]
      rfl
    · exact hslot

theorem Completed.pop {base n : Fin 8} {rest : List (Fin 8)} {middle : Machine β} {bits : UInt64}
    (hcpu : middle.cpu = { machine.cpu with
      address := machine.cpu.address.put base (slotAbove (machine.cpu.address.get base) 1)
      fp := machine.cpu.fp.put n ⟨bits⟩
      cycles := machine.cpu.cycles + multipleCycles })
    (hbus : middle.bus = machine.bus)
    (hslot : Bus.readOperand machine.bus .extended (machine.cpu.address.get base) = some bits)
    (h : Completed middle last (.loadMultiple base rest)) :
    Completed machine last (.loadMultiple base (n :: rest)) := by
  have hbase : middle.cpu.address.get base = slotAbove (machine.cpu.address.get base) 1 := by
    rw [hcpu]; exact Bank.get_put_self _ _ _
  have hfp : middle.cpu.fp = machine.cpu.fp.put n ⟨bits⟩ := by rw [hcpu]
  cases h with
  | loadMultiple hpopped hbus' hlast =>
    rw [hbus, hbase, hfp] at hpopped
    refine .loadMultiple (Option.bind_eq_some_iff.mpr ⟨bits, hslot, hpopped⟩)
      (hbus'.trans hbus) ?_
    rw [hlast, hbase, hcpu, slotAbove, add_ofNat_add_ofNat]
    simp only [Bank.put_put, slotBytes_cons, List.length_cons, Nat.mul_succ]
    congr 1
    omega

theorem completed_loadMultiple {base : Fin 8} {registers : List (Fin 8)}
    (h : loadMultiple base registers machine = .ok () last) :
    Completed machine last (.loadMultiple base registers) := by
  induction registers generalizing machine with
  | nil =>
    cases h
    exact .loadMultiple rfl rfl (by simp)
  | cons n rest ih =>
    rw [loadMultiple, address_bind] at h
    obtain ⟨bits, read, hread, hrest⟩ := bind_eq_ok_iff.mp h
    obtain ⟨hvalue, hbus, hcpu, -⟩ := readMemory_ok hread
    rw [setFp, modifyCpu_bind, charge, modifyCpu_bind] at hrest
    refine Completed.pop ?_ ?_ hvalue (ih hrest)
    · show { read.cpu with
        fp := read.cpu.fp.put n ⟨bits⟩
        cycles := read.cpu.cycles + multipleCycles } = _
      rw [hcpu]
      rfl
    · exact hbus

/-! ### All instructions -/

theorem completed_execute {instruction : Instruction}
    (h : execute instruction machine = .ok () last) : Completed machine last instruction := by
  cases instruction with
  | arithmetic opmode source destination =>
    obtain ⟨value, middle, hsource, hrest⟩ := bind_eq_ok_iff.mp h
    obtain ⟨hvalue, hbus, hcpu⟩ := readSource_ok hsource
    have hlast : last = { middle with cpu := opmode.completed destination value middle.cpu } := by
      -- What is done behind the source differs in which of the two registers are written.
      cases opmode <;> cases hrest <;> rfl
    refine .arithmetic hvalue ?_ ?_ <;> rw [hlast]
    · exact hbus
    · rw [hcpu]
  | store format source destination =>
    rw [execute, cpu_bind] at h
    obtain ⟨_, written, hwrite, hcharge⟩ := bind_eq_ok_iff.mp h
    obtain ⟨hstore, hcpu⟩ := writeDestination_ok (by cases format <;> decide) hwrite
    cases hcharge
    exact .store rfl hstore (congrArg (·.charged storeCycles) hcpu)
  | loadControl register source =>
    obtain ⟨value, middle, hread, hrest⟩ := bind_eq_ok_iff.mp h
    obtain ⟨hvalue, hbus, hcpu⟩ := readOperand_ok hread
    cases hrest
    exact .loadControl hvalue hbus
      (congrArg (fun cpu => (register.put value.toUInt32 cpu).charged controlCycles) hcpu)
  | storeControl register destination =>
    rw [execute, cpu_bind] at h
    obtain ⟨_, written, hwrite, hcharge⟩ := bind_eq_ok_iff.mp h
    obtain ⟨hstore, hcpu⟩ := writeDestination_ok (by decide) hwrite
    cases hcharge
    exact .storeControl rfl hstore (congrArg (·.charged controlCycles) hcpu)
  | storeMultiple base registers => exact completed_storeMultiple h
  | loadMultiple base registers => exact completed_loadMultiple h
  | branch condition target =>
    rw [execute, branch, cpu_bind] at h
    cases hholds : condition.holds machine.cpu.fpsr with
    | true =>
      simp only [hholds, if_true] at h
      cases h
      exact .taken hholds rfl rfl
    | false =>
      simp only [hholds] at h
      cases h
      exact .notTaken hholds rfl rfl
  | saveFrame destination =>
    obtain ⟨hstore, hcpu⟩ := writeDestination_ok (by decide) h
    exact .saveFrame hstore hcpu
  | restoreFrame source =>
    obtain ⟨value, middle, hread, hpure⟩ := bind_eq_ok_iff.mp h
    obtain ⟨hvalue, hbus, hcpu⟩ := readOperand_ok hread
    cases hpure
    exact .restoreFrame hvalue hbus hcpu

end Exec

/-! ## Steps -/

namespace Machine

variable {β : Type} [Bus β] {machine : Machine β}

omit [Bus β] in
/-- The place of an operand does not depend on where the instruction stream is. -/
theorem address_withStream (machine : Machine β) (stream : InstructionStream) (width : Width)
    (place : Reference) :
    place.address width (machine.withStream stream).cpu = place.address width machine.cpu ∧
      (place.moved width (machine.withStream stream).cpu).address
        = (place.moved width machine.cpu).address := by
  cases place <;> exact ⟨rfl, rfl⟩

/-- A step without a fault has fetched an instruction and executed it to its end. -/
theorem executed_step (h : machine.step.fault = none) :
    ∃ instruction stream, machine.fetch = .ok instruction stream ∧
      Exec.execute instruction (machine.withStream stream) = .ok () machine.step.machine := by
  have hsteps := steps_step machine
  generalize machine.step = outcome at h hsteps ⊢
  cases hsteps with
  | unfetched | refused => cases h
  | completed hfetch hexecute => exact ⟨_, _, hfetch, hexecute⟩

theorem completed_step (h : machine.step.fault = none) :
    ∃ instruction stream, machine.fetch = .ok instruction stream ∧
      Exec.Completed (machine.withStream stream) machine.step.machine instruction := by
  obtain ⟨instruction, stream, hfetch, hexecute⟩ := executed_step h
  exact ⟨instruction, stream, hfetch, Exec.completed_execute hexecute⟩

end Machine

/-- Operands are found by the address registers, wherever the instruction stream is. -/
theorem Operand.value_withStream {β : Type} [Bus β] (machine : Machine β)
    (stream : InstructionStream) (width : Width) (operand : Operand) :
    operand.value machine.bus (machine.withStream stream).cpu width
      = operand.value machine.bus machine.cpu width := by
  cases operand with
  | dataRegister | immediate => rfl
  | memory place => rw [value, value, (machine.address_withStream stream width place).1]

theorem Operand.address_moved_withStream {β : Type} (machine : Machine β)
    (stream : InstructionStream) (width : Width) (operand : Operand) :
    (operand.moved width (machine.withStream stream).cpu).address
      = (operand.moved width machine.cpu).address := by
  cases operand with
  | dataRegister | immediate => rfl
  | memory place => exact (machine.address_withStream stream width place).2

end M68Fpu
