import M68Fpu.Proofs.Execution
import M68Fpu.Proofs.Memory.ByteMemory

/-!
# Registers on a stack

What pushing a list of registers leaves in memory, and what popping a list takes from it. A push of
`m` registers fills the `m` slots below the address register downwards (`Pushed`); a pop of `m`
registers empties the `m` slots from the address register on upwards (`Popped`). Both are proved by
induction on the list, with the address register moving one slot at each step.

Addresses wrap around, but all the slots of a list together are far smaller than the address space,
so they never overlap.
-/

namespace M68Fpu

/-! ## Slots -/

/-- The bytes of the slots of a register list. -/
def slotBytes (registers : List (Fin 8)) : Nat := Width.extended.bytes * registers.length

/-- The first address of the slot with number `k` below an address, counted downwards from 0. -/
def slotBelow (address : UInt32) (k : Nat) : UInt32 := address - UInt32.ofNat (12 * (k + 1))

/-- The first address of the slot with number `k` from an address on, counted upwards from 0. -/
def slotAbove (address : UInt32) (k : Nat) : UInt32 := address + UInt32.ofNat (12 * k)

@[simp] theorem slotBytes_nil : slotBytes [] = 0 := rfl

@[simp] theorem slotBytes_cons (n : Fin 8) (rest : List (Fin 8)) :
    slotBytes (n :: rest) = 12 + slotBytes rest := by
  simp only [slotBytes, Width.bytes, List.length_cons]
  omega

@[simp] theorem slotAbove_zero (address : UInt32) : slotAbove address 0 = address := by
  simp [slotAbove]

/-- Counting from one slot below skips the first slot. -/
theorem slotBelow_sub (address : UInt32) (k : Nat) :
    slotBelow (address - UInt32.ofNat 12) k = slotBelow address (k + 1) := by
  unfold slotBelow
  rw [sub_ofNat_sub_ofNat, Nat.add_comm 12, ← Nat.mul_succ]

theorem slotAbove_add (address : UInt32) (k : Nat) :
    slotAbove (address + UInt32.ofNat 12) k = slotAbove address (k + 1) := by
  unfold slotAbove
  rw [add_ofNat_add_ofNat, Nat.add_comm 12, ← Nat.mul_succ]

/-- A slot counted from below is one counted from above. -/
theorem slotAbove_sub (address : UInt32) {count k : Nat} (hk : k < count) :
    slotAbove (address - UInt32.ofNat (12 * count)) k = slotBelow address (count - 1 - k) := by
  have hcount : 12 * count = 12 * (count - 1 - k + 1) + 12 * k := by omega
  unfold slotAbove slotBelow
  rw [hcount, sub_ofNat_add_ofNat]

namespace Exec

variable {β : Type} [Bus β] [ByteMemory β] {machine last : Machine β}

open ByteMemory (contents)

/-! ## One slot -/

/-- A number that was written to a slot fills it, and nothing else changes. -/
theorem writeMemory_extended {slot : UInt32} {bits : UInt64}
    (h : writeMemory .extended slot bits machine = .ok () last) :
    last.cpu = machine.cpu ∧
      contents last.bus = (contents machine.bus).putSlot slot bits := by
  obtain ⟨_, high, hhigh, hrest⟩ := bind_eq_ok_iff.mp h
  obtain ⟨_, low, hlow, hpadding⟩ := bind_eq_ok_iff.mp hrest
  obtain ⟨_, hwrite₁, rfl⟩ := writeLong_eq_ok_iff.mp hhigh
  obtain ⟨_, hwrite₂, rfl⟩ := writeLong_eq_ok_iff.mp hlow
  obtain ⟨_, hwrite₃, rfl⟩ := writeLong_eq_ok_iff.mp hpadding
  refine ⟨rfl, ?_⟩
  show contents _ = _
  rw [ByteMemory.write32_eq hwrite₃, ByteMemory.write32_eq hwrite₂, ByteMemory.write32_eq hwrite₁]
  rfl

/-- A number read from a slot is the one that its first eight bytes hold. -/
theorem readMemory_extended {slot : UInt32} {bits : UInt64}
    (h : readMemory .extended slot machine = .ok bits last) :
    last.cpu = machine.cpu ∧ last.bus = machine.bus ∧
      bits = (contents machine.bus).quad slot := by
  obtain ⟨high, _, hhigh, hrest⟩ := bind_eq_ok_iff.mp h
  obtain ⟨low, _, hlow, hpure⟩ := bind_eq_ok_iff.mp hrest
  obtain ⟨hread₁, rfl⟩ := readLong_eq_ok_iff.mp hhigh
  obtain ⟨hread₂, rfl⟩ := readLong_eq_ok_iff.mp hlow
  cases hpure
  refine ⟨rfl, rfl, ?_⟩
  rw [ByteMemory.read32_eq hread₁, ByteMemory.read32_eq hread₂]
  rfl

/-! ## Pushing -/

/-- What pushing registers on the stack at address register `base` does. -/
structure Pushed (base : Fin 8) (registers : List (Fin 8)) (before after : Machine β) : Prop where
  /-- The address register has moved down by all slots; the cycles have been charged. -/
  cpu_eq : after.cpu = { before.cpu with
    address := before.cpu.address.put base
      (before.cpu.address.get base - UInt32.ofNat (slotBytes registers))
    cycles := before.cpu.cycles + multipleCycles * registers.length }
  /-- Each register is in the slot below the one before. -/
  quad_eq {k : Nat} {n : Fin 8} : registers[k]? = some n →
    (contents after.bus).quad (slotBelow (before.cpu.address.get base) k)
      = (before.cpu.fp.get n).bits
  /-- The rest of each slot is zero. -/
  padding_eq {k : Nat} : k < registers.length →
    (contents after.bus).long (slotBelow (before.cpu.address.get base) k + 8) = 0
  /-- Everything outside of the slots is as before. -/
  frame {address : UInt32} :
    ¬ Within (before.cpu.address.get base - UInt32.ofNat (slotBytes registers))
      (slotBytes registers) address →
    contents after.bus address = contents before.bus address

/-- A push leaves the slot above it alone. -/
theorem Pushed.frame_above {base : Fin 8} {registers : List (Fin 8)} {before after : Machine β}
    (h : Pushed base registers before after) (hbytes : slotBytes registers + 12 ≤ 0x100000000)
    {address : UInt32} (hwithin : Within (before.cpu.address.get base) 12 address) :
    contents after.bus address = contents before.bus address :=
  h.frame (not_within_below hbytes hwithin)

/-- A push of a register and then of others puts the register into the first slot below the address
register and the others below that slot. -/
theorem storeMultiple_cons {base n : Fin 8} {rest : List (Fin 8)}
    (h : storeMultiple base (n :: rest) machine = .ok () last) :
    ∃ middle : Machine β,
      middle.cpu = { machine.cpu with
        address := machine.cpu.address.put base
          (machine.cpu.address.get base - UInt32.ofNat 12)
        cycles := machine.cpu.cycles + multipleCycles } ∧
      contents middle.bus = (contents machine.bus).putSlot
        (slotBelow (machine.cpu.address.get base) 0) (machine.cpu.fp.get n).bits ∧
      storeMultiple base rest middle = .ok () last := by
  obtain ⟨slot, moved, haddress, h⟩ := bind_eq_ok_iff.mp h
  obtain ⟨cpu, _, hcpu, h⟩ := bind_eq_ok_iff.mp h
  obtain ⟨_, written, hwrite, h⟩ := bind_eq_ok_iff.mp h
  obtain ⟨_, _, hcharge, h⟩ := bind_eq_ok_iff.mp h
  -- Of the four actions only the write can fail; the others compute.
  rw [address_eq] at haddress
  cases haddress
  cases hcpu
  cases hcharge
  obtain ⟨hcpu, hcontents⟩ := writeMemory_extended hwrite
  refine ⟨_, ?_, ?_, h⟩
  · show { written.cpu with cycles := written.cpu.cycles + multipleCycles } = _
    rw [hcpu]
    rfl
  · exact hcontents

/-- Every list of registers that is pushed without a fault is on the stack. -/
theorem pushed_of_storeMultiple {base : Fin 8} {registers : List (Fin 8)}
    (hbytes : slotBytes registers ≤ 0x100000000)
    (h : storeMultiple base registers machine = .ok () last) :
    Pushed base registers machine last := by
  induction registers generalizing machine with
  | nil =>
    cases h
    refine ⟨?_, nofun, nofun, fun _ => rfl⟩
    simp
  | cons n rest ih =>
    obtain ⟨middle, hcpu, hcontents, hrest⟩ := storeMultiple_cons h
    rw [slotBytes_cons] at hbytes
    have hpushed := ih (by omega) hrest
    have hbase : middle.cpu.address.get base
        = machine.cpu.address.get base - UInt32.ofNat 12 := by
      rw [hcpu]
      exact Bank.get_put_self _ _ _
    -- The later slots end where the first one begins, so what was put there stays.
    have hslot (address : UInt32)
        (hwithin : Within (slotBelow (machine.cpu.address.get base) 0) 12 address) :
        contents last.bus address = contents middle.bus address := by
      refine hpushed.frame_above (by omega) ?_
      rw [hbase]
      exact hwithin
    refine ⟨?_, ?_, ?_, ?_⟩
    · rw [hpushed.cpu_eq, hbase, hcpu, sub_ofNat_sub_ofNat]
      simp only [Bank.put_put, slotBytes_cons, List.length_cons, Nat.mul_succ]
      congr 1
      omega
    · intro k register hregister
      -- Slot 0 was written first; slot `k + 1` is slot `k` of the registers that followed.
      cases k with
      | zero =>
        obtain rfl : n = register := by simpa using hregister
        rw [Contents.quad_congr fun other hother => hslot other (Nat.lt_trans hother (by omega)),
          hcontents]
        exact Contents.quad_putSlot_self _ _ _
      | succ k =>
        have hlater := hpushed.quad_eq (k := k) (by simpa using hregister)
        rwa [hbase, slotBelow_sub, hcpu] at hlater
    · intro k hk
      cases k with
      | zero =>
        have hkept (other : UInt32)
            (hother : Within (slotBelow (machine.cpu.address.get base) 0 + 8) 4 other) :
            contents last.bus other = contents middle.bus other :=
          hslot other (within_of_within_offset 8 (by omega) (by omega) hother)
        rw [Contents.long_congr hkept, hcontents]
        exact Contents.long_putSlot_padding _ _ _
      | succ k =>
        have hlater := hpushed.padding_eq (k := k) (by simpa using hk)
        rwa [hbase, slotBelow_sub] at hlater
    · intro address hout
      -- Outside of all slots is outside of the first one and outside of the others.
      rw [slotBytes_cons] at hout
      rw [hpushed.frame, hcontents]
      · apply Contents.putSlot_of_not_within
        intro hwithin
        rw [slotBelow, ← sub_ofNat_add_ofNat _ _ (slotBytes rest)] at hwithin
        exact hout (within_of_within_offset _ (by omega) hbytes hwithin)
      · rw [hbase, sub_ofNat_sub_ofNat]
        exact fun hwithin => hout (Nat.lt_of_lt_of_le hwithin (by omega))

/-! ## Popping -/

/-- What popping registers from the stack at address register `base` does. -/
structure Popped (base : Fin 8) (registers : List (Fin 8)) (before after : Machine β) : Prop where
  bus_eq : after.bus = before.bus
  /-- The address register has moved up by all slots and the cycles have been charged; nothing else
  but the floating-point registers has changed. -/
  cpu_eq : after.cpu = { before.cpu with
    address := before.cpu.address.put base
      (before.cpu.address.get base + UInt32.ofNat (slotBytes registers))
    fp := after.cpu.fp
    cycles := before.cpu.cycles + multipleCycles * registers.length }
  /-- Each register comes from the slot above the one before. -/
  fp_eq {k : Nat} {n : Fin 8} : registers[k]? = some n →
    after.cpu.fp.get n
      = ⟨(contents before.bus).quad (slotAbove (before.cpu.address.get base) k)⟩
  /-- The other registers are as before. -/
  fp_frame {n : Fin 8} : n ∉ registers → after.cpu.fp.get n = before.cpu.fp.get n

/-- A pop of a register and then of others takes the register from the first slot above the address
register and the others from above that slot. -/
theorem loadMultiple_cons {base n : Fin 8} {rest : List (Fin 8)}
    (h : loadMultiple base (n :: rest) machine = .ok () last) :
    ∃ middle : Machine β,
      middle.bus = machine.bus ∧
      middle.cpu = { machine.cpu with
        address := machine.cpu.address.put base
          (machine.cpu.address.get base + UInt32.ofNat 12)
        fp := machine.cpu.fp.put n
          ⟨(contents machine.bus).quad (machine.cpu.address.get base)⟩
        cycles := machine.cpu.cycles + multipleCycles } ∧
      loadMultiple base rest middle = .ok () last := by
  obtain ⟨slot, moved, haddress, h⟩ := bind_eq_ok_iff.mp h
  obtain ⟨bits, read, hread, h⟩ := bind_eq_ok_iff.mp h
  obtain ⟨_, _, hset, h⟩ := bind_eq_ok_iff.mp h
  obtain ⟨_, _, hcharge, h⟩ := bind_eq_ok_iff.mp h
  rw [address_eq] at haddress
  cases haddress
  cases hset
  cases hcharge
  obtain ⟨hcpu, hbus, hbits⟩ := readMemory_extended hread
  refine ⟨_, ?_, ?_, h⟩
  · exact hbus
  · show { read.cpu with
      fp := read.cpu.fp.put n ⟨bits⟩, cycles := read.cpu.cycles + multipleCycles } = _
    rw [hcpu, hbits]
    rfl

/-- Every list of different registers that is popped without a fault comes from the stack. -/
theorem popped_of_loadMultiple {base : Fin 8} {registers : List (Fin 8)}
    (hnodup : registers.Nodup) (h : loadMultiple base registers machine = .ok () last) :
    Popped base registers machine last := by
  induction registers generalizing machine with
  | nil =>
    cases h
    refine ⟨rfl, ?_, nofun, fun _ => rfl⟩
    simp
  | cons n rest ih =>
    obtain ⟨middle, hbus, hcpu, hrest⟩ := loadMultiple_cons h
    obtain ⟨hfresh, hnodup⟩ := List.nodup_cons.mp hnodup
    have hpopped := ih hnodup hrest
    have hbase : middle.cpu.address.get base
        = machine.cpu.address.get base + UInt32.ofNat 12 := by
      rw [hcpu]
      exact Bank.get_put_self _ _ _
    refine ⟨hpopped.bus_eq.trans hbus, ?_, ?_, ?_⟩
    · rw [hpopped.cpu_eq, hbase, hcpu, add_ofNat_add_ofNat]
      simp only [Bank.put_put, slotBytes_cons, List.length_cons, Nat.mul_succ]
      congr 1
      omega
    · intro k register hregister
      cases k with
      | zero =>
        obtain rfl : n = register := by simpa using hregister
        -- The first register is not in the rest of the list, so it is not loaded again.
        rw [hpopped.fp_frame hfresh, hcpu]
        simp
      | succ k =>
        have hlater := hpopped.fp_eq (k := k) (by simpa using hregister)
        rwa [hbase, hbus, slotAbove_add] at hlater
    · intro register hregister
      have hne : n ≠ register := fun h => hregister (h ▸ List.mem_cons_self)
      have hrest : register ∉ rest := fun h => hregister (List.mem_cons_of_mem n h)
      rw [hpopped.fp_frame hrest, hcpu]
      exact Bank.get_put_of_ne _ hne _

end Exec

end M68Fpu
