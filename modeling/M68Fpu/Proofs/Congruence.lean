import M68Fpu.Instruction.Fetch
import M68Fpu.Machine.Execute

/-!
# What instructions inherit from the actions that they are made of

Fetching and executing are written in two small languages: sequences of a few elementary fetches,
and sequences of register changes and uses of the bus. A relation between two fetches or two actions,
on buses that may differ, holds of every instruction as soon as it holds of what is elementary and is
closed under sequencing (`Fetch.Congruence.general`, `Fetch.Congruence.stateFrame`,
`Exec.Congruence.execute`). A predicate on one side alone is such a relation as well, so the
definitions of the instructions are followed once and not again for each property of them.
-/

namespace M68Fpu

/-! ## Fetches -/

namespace Fetch

variable {β γ : Type} [Bus β] [Bus γ]

/-- A relation between fetches that is closed under sequencing. -/
structure Congruence (Related : (α : Type) → Fetch β α → Fetch γ α → Prop) : Prop where
  pure {α : Type} (value : α) : Related α (Pure.pure value) (Pure.pure value)
  bind {α δ : Type} {first : Fetch β α} {second : Fetch γ α} {firstNext : α → Fetch β δ}
    {secondNext : α → Fetch γ δ} : Related α first second →
    (∀ value, Related δ (firstNext value) (secondNext value)) →
    Related δ (first >>= firstNext) (second >>= secondNext)
  get : Related InstructionStream MonadState.get MonadState.get
  reject {α : Type} (cause : DecodeError) : Related α (Fetch.reject cause) (Fetch.reject cause)
  word : Related UInt16 Fetch.word Fetch.word
  long : Related UInt32 Fetch.long Fetch.long

namespace Congruence

variable {Related : (α : Type) → Fetch β α → Fetch γ α → Prop} (h : Congruence Related)

include h

theorem map {α δ : Type} (change : α → δ) {first : Fetch β α} {second : Fetch γ α}
    (hfetch : Related α first second) : Related δ (change <$> first) (change <$> second) :=
  h.bind hfetch fun value => h.pure (change value)

theorem require {α : Type} (value : Option α) (cause : DecodeError) :
    Related α (Fetch.require value cause) (Fetch.require value cause) := by
  cases value with
  | none => exact h.reject cause
  | some value => exact h.pure value

theorem accept {α : Type} (value : Except DecodeError α) :
    Related α (Fetch.accept value) (Fetch.accept value) := by
  cases value with
  | error cause => exact h.reject cause
  | ok value => exact h.pure value

/-! ### Operands -/

theorem locate (access : Access) (place : EffectiveAddress) :
    Related Location (Fetch.locate access place) (Fetch.locate access place) := by
  cases place with
  | dataRegister | indirect | postIncrement | preDecrement | immediate => exact h.pure _
  | displaced => exact h.bind h.word fun _ => h.pure _
  | indexed => exact h.bind h.word fun _ => h.bind (h.require _ _) fun _ => h.pure _
  | pcDisplaced => exact h.bind h.get fun _ => h.bind h.word fun _ => h.pure _
  | absoluteLong => exact h.bind h.word fun _ => h.bind h.word fun _ => h.pure _
  | addressRegister | pcIndexed | absoluteShort => exact h.bind h.get fun _ => h.reject _

theorem location (access : Access) :
    Related Location (Fetch.location access) (Fetch.location access) :=
  h.bind h.get fun _ => h.bind (h.require _ _) fun place => h.locate access place

theorem immediate (width : Width) :
    Related UInt64 (Fetch.immediate width) (Fetch.immediate width) := by
  cases width with
  | byte | word => exact h.bind h.word fun _ => h.pure _
  | long => exact h.bind h.long fun _ => h.pure _
  | quad | extended => exact h.bind h.long fun _ => h.bind h.long fun _ => h.pure _

theorem operand (width : Width) :
    Related Operand (Fetch.operand width) (Fetch.operand width) := by
  refine h.bind (h.location _) fun place => ?_
  -- Immediate data follow the words of the location, if there are any.
  cases place with
  | dataRegister | memory => exact h.pure _
  | immediate => exact h.bind (h.immediate width) fun _ => h.pure _

theorem destination (width : Width) :
    Related Destination (Fetch.destination width) (Fetch.destination width) := by
  refine h.bind (h.location _) fun place => ?_
  cases place with
  | dataRegister | memory => exact h.pure _
  | immediate => exact h.bind h.get fun _ => h.reject _

/-! ### Commands -/

theorem arithmetic (source : CommandSource) (n : Fin 8) (code : UInt8) :
    Related Instruction (Fetch.arithmetic source n code) (Fetch.arithmetic source n code) := by
  refine h.bind (h.require _ _) fun opmode => ?_
  cases source with
  | register => exact h.pure _
  | memory format =>
    exact h.bind (h.accept _) fun _ => h.bind (h.operand _) fun _ => h.pure _

theorem moveToMemory (format : Format) (source : Fin 8) :
    Related Instruction (Fetch.moveToMemory format source) (Fetch.moveToMemory format source) :=
  h.bind (h.accept _) fun _ => h.bind (h.destination _) fun _ => h.pure _

theorem moveControl (toMemory : Bool) (select : UInt8) :
    Related Instruction (Fetch.moveControl toMemory select)
      (Fetch.moveControl toMemory select) := by
  refine h.bind (h.require _ _) fun register => ?_
  cases toMemory with
  | true => exact h.bind (h.destination _) fun _ => h.pure _
  | false => exact h.bind (h.operand _) fun _ => h.pure _

theorem stack (direction : Direction) (registers : List (Fin 8)) :
    Related (Fin 8) (Fetch.stack direction registers) (Fetch.stack direction registers) := by
  have hregister : Related (Fin 8)
      (do return EffectiveAddress.registerOf (addressField (← MonadState.get).ir))
      (do return EffectiveAddress.registerOf (addressField (← MonadState.get).ir)) :=
    h.bind h.get fun _ => h.pure _
  cases registers with
  | nil => exact hregister
  | cons => exact h.bind (h.map _ (h.location _)) fun _ => hregister

theorem moveMultiple (toMemory : Bool) (mode list : UInt8) :
    Related Instruction (Fetch.moveMultiple toMemory mode list)
      (Fetch.moveMultiple toMemory mode list) := by
  unfold Fetch.moveMultiple
  -- Only one mode goes on to the stack: 0 pushes and 2 pops.
  cases toMemory with
  | true =>
    by_cases hmode : mode = 0
    · simp only [hmode, if_true]
      exact h.bind (h.stack _ _) fun _ => h.pure _
    · simp only [hmode, if_true, if_false]
      exact h.bind (h.reject _) fun _ => h.bind (h.stack _ _) fun _ => h.pure _
  | false =>
    by_cases hmode : mode = 2
    · simp only [hmode]
      exact h.bind (h.stack _ _) fun _ => h.pure _
    · simp only [hmode, if_false]
      exact h.bind (h.reject _) fun _ => h.bind (h.stack _ _) fun _ => h.pure _

theorem ofCommand (fields : Command) :
    Related Instruction (Fetch.ofCommand fields) (Fetch.ofCommand fields) := by
  cases fields with
  | arithmetic => exact h.arithmetic _ _ _
  | moveToMemory => exact h.moveToMemory _ _
  | moveControl => exact h.moveControl _ _
  | moveMultiple => exact h.moveMultiple _ _ _

theorem command : Related Instruction Fetch.command Fetch.command :=
  h.bind h.word fun _ => h.bind (h.require _ _) fun fields => h.ofCommand fields

/-! ### Instructions -/

theorem branch {first : Fetch β UInt32} {second : Fetch γ UInt32}
    (hdisplacement : Related UInt32 first second) :
    Related Instruction (Fetch.branch first) (Fetch.branch second) :=
  h.bind h.get fun _ => h.bind (h.require _ _) fun _ => h.bind h.get fun _ =>
    h.bind hdisplacement fun _ => h.pure _

theorem general : Related Instruction Fetch.general Fetch.general := by
  refine h.bind h.get fun stream => h.bind (h.require _ _) fun operation => ?_
  cases operation with
  | command => exact h.command
  | branchWord => exact h.branch (h.map _ h.word)
  | branchLong => exact h.branch h.long

theorem stateFrame : Related Instruction Fetch.stateFrame Fetch.stateFrame := by
  refine h.bind h.get fun stream => h.bind (h.require _ _) fun operation => ?_
  cases operation with
  | save => exact h.bind (h.destination _) fun _ => h.pure _
  | restore => exact h.bind (h.operand _) fun _ => h.pure _

end Congruence

end Fetch

/-! ## Execution -/

namespace Exec

variable {β γ : Type} [Bus β] [Bus γ]

/-- A relation between actions that is closed under sequencing. -/
structure Congruence (Related : (α : Type) → Exec β α → Exec γ α → Prop) : Prop where
  pure {α : Type} (value : α) : Related α (Pure.pure value) (Pure.pure value)
  bind {α δ : Type} {first : Exec β α} {second : Exec γ α} {firstNext : α → Exec β δ}
    {secondNext : α → Exec γ δ} : Related α first second →
    (∀ value, Related δ (firstNext value) (secondNext value)) →
    Related δ (first >>= firstNext) (second >>= secondNext)
  cpu : Related Cpu Exec.cpu Exec.cpu
  modifyCpu (change : Cpu → Cpu) : Related Unit (Exec.modifyCpu change) (Exec.modifyCpu change)
  readByte (address : UInt32) : Related UInt8 (Exec.readByte address) (Exec.readByte address)
  readWord (address : UInt32) : Related UInt16 (Exec.readWord address) (Exec.readWord address)
  readLong (address : UInt32) : Related UInt32 (Exec.readLong address) (Exec.readLong address)
  writeByte (address : UInt32) (value : UInt8) :
    Related Unit (Exec.writeByte address value) (Exec.writeByte address value)
  writeWord (address : UInt32) (value : UInt16) :
    Related Unit (Exec.writeWord address value) (Exec.writeWord address value)
  writeLong (address value : UInt32) :
    Related Unit (Exec.writeLong address value) (Exec.writeLong address value)
  traceBranch : Related Unit Exec.traceBranch Exec.traceBranch

namespace Congruence

variable {Related : (α : Type) → Exec β α → Exec γ α → Prop} (h : Congruence Related)

include h

theorem map {α δ : Type} (change : α → δ) {first : Exec β α} {second : Exec γ α}
    (haction : Related α first second) : Related δ (change <$> first) (change <$> second) := by
  rw [map_eq_pure_bind, map_eq_pure_bind]
  exact h.bind haction fun value => h.pure (change value)

/-! ### Operands -/

theorem address (width : Width) (place : Reference) :
    Related UInt32 (Exec.address width place) (Exec.address width place) := by
  cases place with
  | indirect | displaced | indexed => exact h.bind h.cpu fun _ => h.pure _
  | postIncrement | preDecrement =>
    exact h.bind h.cpu fun _ => h.bind (h.modifyCpu _) fun _ => h.pure _
  | absolute => exact h.pure _

theorem readMemory (width : Width) (address : UInt32) :
    Related UInt64 (Exec.readMemory width address) (Exec.readMemory width address) := by
  cases width with
  | byte => exact h.bind (h.readByte _) fun _ => h.pure _
  | word => exact h.bind (h.readWord _) fun _ => h.pure _
  | long => exact h.bind (h.readLong _) fun _ => h.pure _
  | quad | extended =>
    exact h.bind (h.readLong _) fun _ => h.bind (h.readLong _) fun _ => h.pure _

theorem writeMemory (width : Width) (address : UInt32) (value : UInt64) :
    Related Unit (Exec.writeMemory width address value) (Exec.writeMemory width address value) := by
  cases width with
  | byte => exact h.writeByte _ _
  | word => exact h.writeWord _ _
  | long => exact h.writeLong _ _
  | quad => exact h.bind (h.writeLong _ _) fun _ => h.writeLong _ _
  | extended =>
    exact h.bind (h.writeLong _ _) fun _ => h.bind (h.writeLong _ _) fun _ => h.writeLong _ _

theorem readOperand (width : Width) (operand : Operand) :
    Related UInt64 (Exec.readOperand width operand) (Exec.readOperand width operand) := by
  cases operand with
  | dataRegister => exact h.bind h.cpu fun _ => h.pure _
  | immediate => exact h.pure _
  | memory => exact h.bind (h.address _ _) fun _ => h.readMemory _ _

theorem writeDestination (width : Width) (value : UInt64) (destination : Destination) :
    Related Unit (Exec.writeDestination width value destination)
      (Exec.writeDestination width value destination) := by
  cases destination with
  | dataRegister => exact h.modifyCpu _
  | memory => exact h.bind (h.address _ _) fun _ => h.writeMemory _ _ _

theorem readSource (source : Source) :
    Related Double (Exec.readSource source) (Exec.readSource source) := by
  cases source with
  | register => exact h.bind h.cpu fun _ => h.pure _
  | operand => exact h.map _ (h.readOperand _ _)

/-! ### Instructions -/

theorem arithmetic (opmode : Opmode) (source : Source) (destination : Fin 8) :
    Related Unit (Exec.arithmetic opmode source destination)
      (Exec.arithmetic opmode source destination) := by
  refine h.bind (h.readSource source) fun value => h.bind h.cpu fun cpu => ?_
  -- The operations differ in which of the two registers they write, and in nothing else.
  cases opmode with
  | move | div | cmp | tst => exact h.bind (h.modifyCpu _) fun _ => h.modifyCpu _
  | _ => exact h.bind (h.modifyCpu _) fun _ => h.bind (h.modifyCpu _) fun _ => h.modifyCpu _

/-- Registers are pushed one slot at a time: a list is its first register and then the others. -/
theorem storeMultiple (base : Fin 8) (registers : List (Fin 8)) :
    Related Unit (Exec.storeMultiple base registers) (Exec.storeMultiple base registers) := by
  induction registers with
  | nil => exact h.pure _
  | cons n rest ih =>
    exact h.bind (h.address _ _) fun _ => h.bind h.cpu fun _ => h.bind (h.writeMemory _ _ _)
      fun _ => h.bind (h.modifyCpu _) fun _ => ih

theorem loadMultiple (base : Fin 8) (registers : List (Fin 8)) :
    Related Unit (Exec.loadMultiple base registers) (Exec.loadMultiple base registers) := by
  induction registers with
  | nil => exact h.pure _
  | cons n rest ih =>
    exact h.bind (h.address _ _) fun _ => h.bind (h.readMemory _ _) fun _ =>
      h.bind (h.modifyCpu _) fun _ => h.bind (h.modifyCpu _) fun _ => ih

theorem branch (condition : Condition) (target : UInt32) :
    Related Unit (Exec.branch condition target) (Exec.branch condition target) := by
  refine h.bind h.cpu fun cpu => ?_
  -- A branch is announced only if it is taken.
  by_cases hholds : condition.holds cpu.fpsr
  · simp only [hholds, if_true]
    exact h.bind h.traceBranch fun _ => h.bind (h.modifyCpu _) fun _ => h.modifyCpu _
  · simp only [hholds]
    exact h.modifyCpu _

theorem execute (instruction : Instruction) :
    Related Unit (Exec.execute instruction) (Exec.execute instruction) := by
  cases instruction with
  | arithmetic => exact h.arithmetic _ _ _
  | store =>
    exact h.bind h.cpu fun _ => h.bind (h.writeDestination _ _ _) fun _ => h.modifyCpu _
  | loadControl =>
    exact h.bind (h.readOperand _ _) fun _ => h.bind (h.modifyCpu _) fun _ => h.modifyCpu _
  | storeControl =>
    exact h.bind h.cpu fun _ => h.bind (h.writeDestination _ _ _) fun _ => h.modifyCpu _
  | storeMultiple => exact h.storeMultiple _ _
  | loadMultiple => exact h.loadMultiple _ _
  | branch => exact h.branch _ _
  | saveFrame => exact h.writeDestination _ _ _
  | restoreFrame => exact h.map _ (h.readOperand _ _)

end Congruence

end Exec

end M68Fpu
