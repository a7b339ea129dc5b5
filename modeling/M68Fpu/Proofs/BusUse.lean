import M68Fpu.Bus.Sparse

/-!
# What can become of a bus

The states of a bus that a processor can lead to, by accepted writes and traced branches
(`Bus.Reaches`), and the buses on which no access is ever refused (`Bus.NeverRefuses`), whatever has
been written before.
-/

namespace M68Fpu

namespace Bus

variable {β : Type} [Bus β] {first middle last : β}

/-- The states of a bus that accepted writes and traced branches lead to. -/
inductive Reaches (first : β) : β → Prop
  | refl : Reaches first first
  | write8 {last after : β} {address : UInt32} {value : UInt8} (h : Reaches first last)
      (hwrite : Bus.write8 last address value = some after) : Reaches first after
  | write16 {last after : β} {address : UInt32} {value : UInt16} (h : Reaches first last)
      (hwrite : Bus.write16 last address value = some after) : Reaches first after
  | write32 {last after : β} {address value : UInt32} (h : Reaches first last)
      (hwrite : Bus.write32 last address value = some after) : Reaches first after
  | traceBranch {last : β} (h : Reaches first last) : Reaches first (Bus.traceBranch last)

theorem Reaches.trans (hfirst : Reaches first middle) (hlast : Reaches middle last) :
    Reaches first last := by
  induction hlast with
  | refl => exact hfirst
  | write8 _ hwrite ih => exact .write8 ih hwrite
  | write16 _ hwrite ih => exact .write16 ih hwrite
  | write32 _ hwrite ih => exact .write32 ih hwrite
  | traceBranch _ ih => exact .traceBranch ih

theorem reaches_writeBytes (bus : β) (address : UInt32) (bytes : List UInt8) :
    Reaches bus (writeBytes bus address bytes).2 := by
  induction bytes generalizing bus address with
  | nil => exact .refl
  | cons byte rest ih =>
    unfold writeBytes
    cases hwrite : write8 bus address byte with
    | none => exact .refl
    | some after => exact (Reaches.write8 .refl hwrite).trans (ih after (address + 1))

/-- Whether a bus refuses some access as it is now. -/
inductive Refuses (bus : β) : Prop
  | read8 {address : UInt32} (h : Bus.read8 bus address = none)
  | read16 {address : UInt32} (h : Bus.read16 bus address = none)
  | read32 {address : UInt32} (h : Bus.read32 bus address = none)
  | write8 {address : UInt32} {value : UInt8} (h : Bus.write8 bus address value = none)
  | write16 {address : UInt32} {value : UInt16} (h : Bus.write16 bus address value = none)
  | write32 {address value : UInt32} (h : Bus.write32 bus address value = none)

/-- Whether a bus refuses no access, now and after whatever a processor does with it. -/
def NeverRefuses (bus : β) : Prop := ∀ after, Reaches bus after → ¬ Refuses after

theorem NeverRefuses.exists_read16 (h : NeverRefuses first) (address : UInt32) :
    ∃ value, read16 first address = some value := by
  cases hread : read16 first address with
  | some value => exact ⟨value, rfl⟩
  | none => exact absurd (.read16 hread) (h first .refl)

theorem NeverRefuses.exists_read32 (h : NeverRefuses first) (address : UInt32) :
    ∃ value, read32 first address = some value := by
  cases hread : read32 first address with
  | some value => exact ⟨value, rfl⟩
  | none => exact absurd (.read32 hread) (h first .refl)

end Bus

/-! ## Sparse memory -/

namespace SparseMemory

/-- Whether no range of a sparse memory is refused. -/
def Open (memory : SparseMemory) : Prop := memory.refused = []

variable {memory after : SparseMemory}

theorem Open.allowed (h : memory.Open) (address : UInt32) (count : Nat) :
    memory.allowed address count = true := by
  induction count generalizing address with
  | zero => rfl
  | succ count ih =>
    unfold SparseMemory.allowed
    rw [ih, h]
    rfl

theorem Open.storeBytes (h : memory.Open) (address : UInt32) (data : List UInt8) :
    (ByteAddressed.storeBytes memory address data).Open := by
  induction data generalizing memory address with
  | nil => exact h
  | cons byte rest ih =>
    have hstored : (ByteAddressed.store memory address byte).Open := h
    exact ih hstored (address + 1)

theorem Open.read (h : memory.Open) (address : UInt32) (count : Nat) :
    ∃ value, ByteAddressed.read memory address count = some value :=
  ⟨_, if_pos (h.allowed address count)⟩

theorem Open.write (h : memory.Open) (address : UInt32) (count value : Nat) :
    ∃ after : SparseMemory, ByteAddressed.write memory address count value = some after ∧
      after.Open :=
  ⟨_, if_pos (h.allowed address count), h.storeBytes address _⟩

/-- Writes and branches refuse nothing that was not refused before. -/
theorem Open.of_reaches (h : memory.Open) (hreaches : Bus.Reaches memory after) : after.Open := by
  induction hreaches with
  | refl => exact h
  | write8 _ hwrite ih | write16 _ hwrite ih | write32 _ hwrite ih =>
    obtain ⟨_, heq, hopen⟩ := ih.write _ _ _
    obtain rfl := Option.some.inj (hwrite.symm.trans heq)
    exact hopen
  | @traceBranch last _ ih =>
    show (if last.tracing then { last with branches := last.branches + 1 } else last
      : SparseMemory).refused = []
    split <;> exact ih

/-- Sparse memory without refused ranges accepts every access at any time. -/
theorem Open.neverRefuses (h : memory.Open) : Bus.NeverRefuses memory := by
  intro last hreaches hrefuses
  -- Whatever the processor has done to the memory, nothing is refused in it.
  have hopen := h.of_reaches hreaches
  cases hrefuses with
  | @read8 address hnone =>
    obtain ⟨value, heq⟩ := hopen.read address 1
    rw [show Bus.read8 last address = _ from congrArg (Option.map _) heq] at hnone
    cases hnone
  | @read16 address hnone =>
    obtain ⟨value, heq⟩ := hopen.read address 2
    rw [show Bus.read16 last address = _ from congrArg (Option.map _) heq] at hnone
    cases hnone
  | @read32 address hnone =>
    obtain ⟨value, heq⟩ := hopen.read address 4
    rw [show Bus.read32 last address = _ from congrArg (Option.map _) heq] at hnone
    cases hnone
  | @write8 address value hnone =>
    obtain ⟨_, heq, -⟩ := hopen.write address 1 value.toNat
    cases hnone.symm.trans heq
  | @write16 address value hnone =>
    obtain ⟨_, heq, -⟩ := hopen.write address 2 value.toNat
    cases hnone.symm.trans heq
  | @write32 address value hnone =>
    obtain ⟨_, heq, -⟩ := hopen.write address 4 value.toNat
    cases hnone.symm.trans heq

end SparseMemory

end M68Fpu
