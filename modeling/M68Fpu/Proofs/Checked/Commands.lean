import Mathlib.Data.Nat.Bitwise
import M68Fpu.Proofs.Checked.Operands
import M68Fpu.Proofs.Completion
import M68Fpu.Proofs.RegisterList
import M68Fpu.Proofs.RegisterListPlace

/-!
# Checked execution of commands

A command of the checked interpreter is fetched first and executed then (`Checked.command_eq`),
although it looks up registers in front of its operand and although a register list looks for its
stack again at each register.

That a list may look once is by induction on its bits (`Checked.forM_stack`): the place of a slot
depends on the opcode alone, and moving a register leaves the opcode as it is.
-/

namespace M68Fpu

/-! ## Stacks -/

namespace Direction

/-- The location that names the stack at an address register. -/
def stackPlace : Direction → (base : Fin 8) → EffectiveAddress
  | read => .postIncrement
  | write => .preDecrement

/-- The next slot of the stack at an address register. -/
def stackSlot : Direction → (base : Fin 8) → Reference
  | read => .postIncrement
  | write => .preDecrement

end Direction

theorem decode_of_onStack {direction : Direction} {opcode : UInt16} (h : OnStack direction opcode) :
    EffectiveAddress.decode (addressField opcode) =
      some (direction.stackPlace (EffectiveAddress.registerOf (addressField opcode))) := by
  unfold EffectiveAddress.decode
  rw [modeOf_addressField]
  cases direction with
  | read => rw [show octalField opcode 3 = 3 from Fin.ext h]; rfl
  | write => rw [show octalField opcode 3 = 4 from Fin.ext h]; rfl

namespace Fetch

variable {β : Type} [Bus β] {bus : β} {stream last : InstructionStream} {direction : Direction}

theorem supports_stackPlace (direction : Direction) (base : Fin 8) :
    (⟨.extended, direction⟩ : Access).supports (direction.stackPlace base) = true := by
  cases direction <;> rfl

theorem locate_stackPlace (direction : Direction) (base : Fin 8) (bus : β)
    (stream : InstructionStream) :
    locate ⟨.extended, direction⟩ (direction.stackPlace base) bus stream =
      .ok (.memory (direction.stackSlot base)) stream := by
  cases direction <;> rfl

theorem stack_of_onStack (h : OnStack direction stream.ir) (registers : List (Fin 8)) (bus : β) :
    stack direction registers bus stream =
      .ok (EffectiveAddress.registerOf (addressField stream.ir)) stream :=
  stack_of_supported (decode_of_onStack h) (supports_stackPlace direction _)
    (fun bus => locate_stackPlace direction _ bus stream) registers bus

/-- An extended slot is located by the stack of its direction, as for a list of registers. -/
theorem location_extended (direction : Direction) (n : Fin 8) :
    (location ⟨.extended, direction⟩ : Fetch β Location) =
      (fun base => .memory (direction.stackSlot base)) <$> stack direction [n] := by
  funext bus stream
  rw [map_eq_pure_bind, bind_apply]
  by_cases hstack : OnStack direction stream.ir
  · rw [location_of_supported (decode_of_onStack hstack) (supports_stackPlace direction _),
      locate_stackPlace, stack_of_onStack hstack]
    rfl
  · rw [location_of_filter_eq_none (filter_supports_eq_none hstack),
      stack_of_not_onStack (List.cons_ne_nil n []) hstack]

/-- The stack is found again as long as the opcode is the same. -/
theorem stack_again {registers : List (Fin 8)} (hregisters : registers ≠ []) {base : Fin 8}
    (h : stack direction registers bus stream = .ok base last) {other : InstructionStream}
    (hir : other.ir = last.ir) (rest : List (Fin 8)) (after : β) :
    stack direction rest after other = .ok base other := by
  by_cases hstack : OnStack direction stream.ir
  · rw [stack_of_onStack hstack] at h
    cases h
    rw [stack_of_onStack (hir ▸ hstack), hir]
  · rw [stack_of_not_onStack hregisters hstack] at h
    cases h

end Fetch

namespace Checked

variable {β α γ : Type}

/-! ## List bits -/

theorem toNat_listed (list : UInt8) (n : Fin 8) :
    (list &&& (1 <<< UInt8.ofNat n)).toNat = (list.toNat.testBit n).toNat * 2 ^ n.val := by
  have hbit : ((1 : UInt8) <<< UInt8.ofNat n).toNat = 2 ^ n.val := by
    revert n
    decide
  rw [UInt8.toNat_and, hbit, Nat.and_two_pow]

theorem listed_eq (list : UInt8) (n : Fin 8) :
    (listed list n.val : Checked β Bool) = pure (list.toNat.testBit n) := by
  have hlisted : (list &&& (1 <<< UInt8.ofNat n) != 0) = list.toNat.testBit n := by
    have hword := toNat_listed list n
    cases htest : list.toNat.testBit n with
    | false =>
      rw [htest, Bool.toNat_false, Nat.zero_mul] at hword
      exact bne_eq_false_iff_eq.mpr (UInt8.toNat_inj.mp hword)
    | true =>
      rw [htest, Bool.toNat_true, Nat.one_mul] at hword
      refine bne_iff_ne.mpr fun hzero => ?_
      rw [hzero] at hword
      exact absurd hword.symm (Nat.ne_of_gt (Nat.two_pow_pos n.val))
  unfold listed
  rw [if_pos n.isLt, hlisted]

theorem loadedBy_eq (n : Fin 8) : (loadedBy n.val : Checked β Nat) = pure n.rev.val := by
  have hrev : 7 - n.val = n.rev.val := by
    rw [Fin.val_rev]
    omega
  unfold loadedBy
  rw [if_pos (Nat.le_of_lt_succ n.isLt), hrev]

theorem forListed_eq (list : UInt8) (move : Nat → Checked β Unit) (bits : List (Fin 8)) :
    forListed list move (bits.map Fin.val) =
      forM (bits.filter fun n => list.toNat.testBit n.val) fun n => move n.val := by
  induction bits with
  | nil => rfl
  | cons n rest ih =>
    rw [List.map_cons, forListed, listed_eq, pure_bind, List.filter_cons, ih]
    cases list.toNat.testBit n.val <;> rfl

variable [Bus β]

/-! ## Commands -/

/-- Fetches an instruction, then executes it. -/
def staged (fetch : Fetch β Instruction) : Checked β Unit := do
  ofExec (Exec.execute (← ofFetch fetch))

theorem staged_bind (fetch : Fetch β α) (next : α → Fetch β Instruction) :
    staged (fetch >>= next) = ofFetch fetch >>= fun value => staged (next value) := by
  unfold staged
  rw [ofFetch_bind, bind_assoc]

theorem staged_pure (instruction : Instruction) :
    (staged (pure instruction) : Checked β Unit) = ofExec (Exec.execute instruction) := rfl

/-- The source of an arithmetic command. -/
def fetchSource : CommandSource → Fetch β M68Fpu.Source
  | .register n => pure (.register n)
  | .memory format => do
    let format ← Fetch.accept format.loadFormat
    return .operand format (← Fetch.operand format.width)

theorem fetch_arithmetic_eq (source : CommandSource) (destination : Fin 8) (code : UInt8) :
    (Fetch.arithmetic source destination code : Fetch β Instruction) = do
      let opmode ← Fetch.require (Opmode.decode code) (.unknownOpmode code)
      return .arithmetic opmode (← fetchSource source) destination := by
  cases source with
  | register n => rfl
  | memory format => simp only [Fetch.arithmetic, fetchSource, bind_assoc, pure_bind]

theorem source_eq (operand : CommandSource) :
    (source (.of operand) : Checked β Double) =
      ofFetch (fetchSource operand) >>= fun found => ofExec (Exec.readSource found) := by
  cases operand with
  | register n =>
    simp only [source, Source.of, fp, register_ofNat, pure_bind]
    rfl
  | memory format =>
    simp only [source, Source.of, fetchSource, readOperand_eq, Exec.readSource, ofFetch_bind,
      ofFetch_pure, bind_assoc, pure_bind, ofExec_map]
    rfl

theorem arithmetic_eq (operand : CommandSource) (destination : Fin 8) (code : UInt8) :
    (arithmetic (.of operand) (UInt8.ofNat destination) code : Checked β Unit) =
      staged (Fetch.arithmetic operand destination code) := by
  simp only [arithmetic, source_eq, fetch_arithmetic_eq, fp, setFp, register_ofNat, bind_assoc,
    pure_bind, staged_bind, staged_pure]
  refine bind_congr fun opmode => bind_congr fun found => ?_
  simp only [Exec.execute, Exec.arithmetic, ofExec_bind]
  refine bind_congr fun value => ?_
  cases opmode.writesBack <;> cases opmode.setsConditionCodes <;> rfl

theorem moveToMemory_eq (format : Format) (n : Fin 8) :
    (moveToMemory format (UInt8.ofNat n) : Checked β Unit) =
      staged (Fetch.moveToMemory format n) := by
  have hwide (format : StoreFormat) : 4 ≤ format.width.bytes := by cases format <;> decide
  -- The register is looked up in front of everything that is still to be fetched.
  have hvalue := cpu_bind_ofFetch (fun cpu => cpu.fp.get n) (fun _ _ _ => rfl)
    (Fetch.accept format.storeFormat) fun value format => do
      writeOperand (β := β) format.width (format.encode value)
      charge Exec.storeCycles
  simp only [moveToMemory, Fetch.moveToMemory, fp, register_ofNat, pure_bind, bind_assoc,
    staged_bind, staged_pure, Exec.execute]
  refine hvalue.trans (bind_congr fun format => ?_)
  rw [← bind_assoc, cpu_bind_writeOperand (hwide format) (fun cpu => format.encode (cpu.fp.get n))
    fun _ _ _ => rfl]
  simp only [ofExec_bind, bind_assoc]
  rfl

theorem moveControl_eq (toMemory : Bool) (select : UInt8) :
    (moveControl toMemory select : Checked β Unit) =
      staged (Fetch.moveControl toMemory select) := by
  simp only [moveControl, Fetch.moveControl, staged_bind]
  refine bind_congr fun register => ?_
  cases toMemory with
  | false =>
    simp only [Bool.false_eq_true, if_false, readOperand_eq, bind_assoc, staged_bind, staged_pure,
      Exec.execute, ofExec_bind]
    rfl
  | true =>
    simp only [if_true, staged_bind, staged_pure, Exec.execute]
    rw [← bind_assoc, cpu_bind_writeOperand (by decide)
      (fun cpu => (register.get cpu).toUInt64) fun _ _ _ => by cases register <;> rfl]
    simp only [ofExec_bind, bind_assoc]
    rfl

/-! ## Register lists -/

/-- Pushes a register on the stack at an address register. -/
def pushAt (base n : Fin 8) : Exec β Unit := do
  let cpu ← Exec.cpu
  Exec.writeDestination .extended (cpu.fp.get n).bits (.memory (.preDecrement base))
  Exec.charge Exec.multipleCycles

def popAt (base n : Fin 8) : Exec β Unit := do
  let bits ← Exec.readOperand .extended (.memory (.postIncrement base))
  Exec.setFp n ⟨bits⟩
  Exec.charge Exec.multipleCycles

theorem storeMultiple_eq (base : Fin 8) (registers : List (Fin 8)) :
    (Exec.storeMultiple base registers : Exec β Unit) = forM registers (pushAt base) := by
  induction registers with
  | nil => rfl
  | cons n rest ih =>
    rw [List.forM_cons, ← ih]
    simp only [pushAt, bind_assoc]
    rfl

theorem loadMultiple_eq (base : Fin 8) (registers : List (Fin 8)) :
    (Exec.loadMultiple base registers : Exec β Unit) = forM registers (popAt base) := by
  induction registers with
  | nil => rfl
  | cons n rest ih =>
    rw [List.forM_cons, ← ih]
    simp only [Exec.loadMultiple, popAt, Exec.readOperand, bind_assoc]

theorem push_eq (n : Fin 8) :
    (push n.val : Checked β Unit) =
      ofFetch (Fetch.stack .write [n]) >>= fun base => ofExec (pushAt base n) := by
  simp only [push, fp, register_val, pure_bind, bind_assoc]
  rw [← bind_assoc,
    cpu_bind_writeOperand (by decide) (fun cpu => (cpu.fp.get n).bits) fun _ _ _ => rfl,
    Fetch.destination, Fetch.location_extended .write n]
  simp only [ofFetch_bind, ofFetch_pure, ofExec_bind, map_eq_pure_bind, bind_assoc, pure_bind,
    pushAt]
  rfl

theorem pop_eq (n : Fin 8) :
    (pop n.val : Checked β Unit) =
      ofFetch (Fetch.stack .read [n]) >>= fun base => ofExec (popAt base n.rev) := by
  simp only [pop, loadedBy_eq, setFp, register_val, pure_bind, readOperand_eq]
  rw [Fetch.operand, Fetch.location_extended .read n]
  simp only [ofFetch_bind, ofFetch_pure, ofExec_bind, map_eq_pure_bind, bind_assoc, pure_bind,
    popAt]
  rfl

theorem ir_pushAt {base n : Fin 8} {machine last : Machine β}
    (h : pushAt base n machine = .ok () last) : last.cpu.ir = machine.cpu.ir := by
  rw [pushAt, Exec.cpu_bind] at h
  obtain ⟨_, middle, hwrite, hcharge⟩ := Exec.bind_eq_ok_iff.mp h
  have hcpu := (Exec.writeDestination_ok (by decide) hwrite).2
  cases hcharge
  show middle.cpu.ir = _
  rw [hcpu]
  rfl

theorem ir_popAt {base n : Fin 8} {machine last : Machine β}
    (h : popAt base n machine = .ok () last) : last.cpu.ir = machine.cpu.ir := by
  obtain ⟨bits, middle, hread, hrest⟩ := Exec.bind_eq_ok_iff.mp h
  have hcpu := (Exec.readOperand_ok hread).2.2
  cases hrest
  show middle.cpu.ir = _
  rw [hcpu]
  rfl

/-- Looking for the stack at each register is looking for it once. -/
theorem forM_stack {direction : Direction} {move : Fin 8 → Checked β Unit}
    {moveAt : Fin 8 → Fin 8 → Exec β Unit}
    (hmove : ∀ n, move n =
      ofFetch (Fetch.stack direction [n]) >>= fun base => ofExec (moveAt base n))
    (hir : ∀ {base n machine last}, moveAt base n machine = .ok () last →
      last.cpu.ir = machine.cpu.ir)
    (registers : List (Fin 8)) :
    forM registers move =
      ofFetch (Fetch.stack direction registers) >>= fun base =>
        ofExec (forM registers (moveAt base)) := by
  induction registers with
  | nil => rfl
  | cons n rest ih =>
    funext state
    simp only [List.forM_cons, ih, hmove, bind_assoc, ofExec_bind]
    refine bind_apply_congr rfl fun base located hlocated => ?_
    refine bind_apply_congr rfl fun _ last hmoved => ?_
    obtain ⟨stream, hstack, rfl⟩ := ofFetch_eq_ok hlocated
    obtain ⟨machine, hok, rfl⟩ := ofExec_eq_ok hmoved
    -- Moving the register has not changed the opcode.
    exact ofFetch_bind_of_ok fun events =>
      Fetch.stack_again (List.cons_ne_nil n rest) hstack (hir hok) rest machine.bus

theorem storeListed_eq (list : UInt8) :
    (forListed list push (List.range 8) : Checked β Unit) =
      ofFetch (Fetch.stack .write (storedRegisters list)) >>= fun base =>
        ofExec (Exec.storeMultiple base (storedRegisters list)) := by
  simp only [storeMultiple_eq]
  rw [← forM_stack push_eq ir_pushAt]
  exact forListed_eq list push (List.finRange 8)

theorem loadListed_eq (list : UInt8) :
    (forListed list pop (List.range 8) : Checked β Unit) =
      ofFetch (Fetch.stack .read (loadedRegisters list)) >>= fun base =>
        ofExec (Exec.loadMultiple base (loadedRegisters list)) := by
  have hpop (n : Fin 8) : (pop n.rev.val : Checked β Unit) =
      ofFetch (Fetch.stack .read [n]) >>= fun base => ofExec (popAt base n) := by
    rw [pop_eq, Fin.rev_rev]
    rfl
  simp only [loadMultiple_eq]
  rw [← forM_stack hpop ir_popAt, loadedRegisters, List.forM_map]
  simp only [Fin.rev_rev]
  exact forListed_eq list pop (List.finRange 8)

theorem moveMultiple_eq (toMemory : Bool) (mode list : UInt8) :
    (moveMultiple toMemory mode list : Checked β Unit) =
      staged (Fetch.moveMultiple toMemory mode list) := by
  cases toMemory with
  | true =>
    simp only [moveMultiple, Fetch.moveMultiple, if_true, storeListed_eq]
    by_cases hmode : mode = 0
    · simp only [if_pos hmode, staged_bind, staged_pure, Exec.execute]
    · simp only [if_neg hmode]
      rfl
  | false =>
    simp only [moveMultiple, Fetch.moveMultiple, Bool.false_eq_true, if_false, loadListed_eq]
    by_cases hmode : mode = 2
    · simp only [if_pos hmode, staged_bind, staged_pure, Exec.execute]
    · simp only [if_neg hmode]
      rfl

/-- A command is fetched, then executed. -/
theorem ofFields_eq (fields : Command) :
    (ofFields (.of fields) : Checked β Unit) = staged (Fetch.ofCommand fields) := by
  cases fields with
  | arithmetic operand destination code => exact arithmetic_eq operand destination code
  | moveToMemory format n => exact moveToMemory_eq format n
  | moveControl toMemory select => exact moveControl_eq toMemory select
  | moveMultiple toMemory mode list => exact moveMultiple_eq toMemory mode list

theorem command_eq : (command : Checked β Unit) = staged Fetch.command := by
  unfold command Fetch.command
  rw [staged_bind]
  refine bind_congr fun second => ?_
  rw [Fields.decode_eq, staged_bind]
  cases Command.decode second with
  | none => rfl
  | some fields => exact ofFields_eq fields

end Checked

end M68Fpu
