import Mathlib.Data.List.Sort
import M68Fpu.Bus.Sparse
import M68Fpu.Proofs.Memory.Operands
import M68Fpu.Proofs.RegisterList

/-!
# Register lists byte by byte

What a step that moves a register list does to memory and to the registers, in terms of the list
byte and of the bytes in memory. The set bits of the list are numbered from the lowest up
(`SetBits`). A push gives the register of bit `k` the twelve bytes with number `k` below the address
register, its 64 bits in front of four zeros (`Machine.ListPushed`). A pop fills the register that
mirrors bit `k` from the first eight of the twelve bytes with number `k` above the address register
(`Machine.ListPopped`). Nothing else changes.
-/

namespace M68Fpu

/-! ## The bits of a list -/

/-- Whether `bits` are the numbers of the bits that are set in a list byte, lowest first. -/
structure SetBits (list : UInt8) (bits : List (Fin 8)) : Prop where
  ascending : bits.Pairwise (· < ·)
  mem_iff (n : Fin 8) : n ∈ bits ↔ list.toNat.testBit n = true

theorem setBits_listedBits (list : UInt8) : SetBits list (listedBits list) where
  ascending := (List.sortedLT_finRange 8).pairwise.filter _
  mem_iff n := by
    unfold listedBits
    rw [List.mem_filter]
    exact and_iff_right (List.mem_finRange n)

/-- There is only one way to number them. -/
theorem SetBits.eq_listedBits {list : UInt8} {bits : List (Fin 8)} (h : SetBits list bits) :
    bits = listedBits list := by
  have hlisted := setBits_listedBits list
  refine h.ascending.sortedLT.eq_of_mem_iff hlisted.ascending.sortedLT fun n => ?_
  rw [h.mem_iff, hlisted.mem_iff]

/-! ## Bytes of numbers -/

namespace Contents

theorem bytes_eq_encode_quad (contents : Contents) (address : UInt32) :
    contents.bytes address 8 = BigEndian.encode 8 (contents.quad address).toNat := by
  have h := BigEndian.encode_decode (contents.bytes address 8)
  rw [length_bytes] at h
  rw [toNat_quad, h]

theorem bytes_eq_encode_long (contents : Contents) (address : UInt32) :
    contents.bytes address 4 = BigEndian.encode 4 (contents.long address).toNat := by
  have h := BigEndian.encode_decode (contents.bytes address 4)
  rw [length_bytes] at h
  rw [toNat_long, h]

theorem quad_eq_ofNat_decode (contents : Contents) (address : UInt32) :
    contents.quad address = UInt64.ofNat (BigEndian.decode (contents.bytes address 8)) := by
  rw [← toNat_quad, UInt64.ofNat_toNat]

/-- The bytes of a slot are those of its number and those of its padding. -/
theorem bytes_slot {contents : Contents} {slot : UInt32} {bits : UInt64}
    (hquad : contents.quad slot = bits) (hpadding : contents.long (slot + 8) = 0) :
    contents.bytes slot 12 = BigEndian.encode 8 bits.toNat ++ [0, 0, 0, 0] := by
  have hsplit := contents.bytes_add slot 8 4
  rw [hsplit, bytes_eq_encode_quad, hquad]
  show _ ++ contents.bytes (slot + 8) 4 = _
  rw [bytes_eq_encode_long, hpadding]
  rfl

end Contents

/-! ## Steps -/

namespace Machine

open ByteMemory (contents)
open Exec (Pushed Popped)

variable {β : Type} [Bus β] [ByteMemory β] {machine : Machine β}

/-- What a push of the registers with the numbers `bits` does. -/
structure ListPushed (base : Fin 8) (bits : List (Fin 8)) (before after : Machine β) : Prop where
  address_eq : after.cpu.address = before.cpu.address.put base
    (before.cpu.address.get base - UInt32.ofNat (12 * bits.length))
  slot_eq {k : Nat} (hk : k < bits.length) :
    (contents after.bus).bytes (slotBelow (before.cpu.address.get base) k) 12 =
      BigEndian.encode 8 (before.cpu.fp.get bits[k]).bits.toNat ++ [0, 0, 0, 0]
  memory_frame {address : UInt32} :
    ¬ Within (before.cpu.address.get base - UInt32.ofNat (12 * bits.length)) (12 * bits.length)
      address → contents after.bus address = contents before.bus address
  fp_eq : after.cpu.fp = before.cpu.fp
  cycles_eq : after.cpu.cycles = before.cpu.cycles + 2 * bits.length

/-- What a pop by the bits with the numbers `bits` does. -/
structure ListPopped (base : Fin 8) (bits : List (Fin 8)) (before after : Machine β) : Prop where
  address_eq : after.cpu.address = before.cpu.address.put base
    (before.cpu.address.get base + UInt32.ofNat (12 * bits.length))
  fp_eq {k : Nat} (hk : k < bits.length) :
    after.cpu.fp.get bits[k].rev = ⟨UInt64.ofNat (BigEndian.decode
      ((contents before.bus).bytes (slotAbove (before.cpu.address.get base) k) 8))⟩
  fp_frame {n : Fin 8} : n.rev ∉ bits → after.cpu.fp.get n = before.cpu.fp.get n
  memory_eq : contents after.bus = contents before.bus
  cycles_eq : after.cpu.cycles = before.cpu.cycles + 2 * bits.length

theorem listPushed_of_pushed {base : Fin 8} {list : UInt8} {stream : InstructionStream}
    {after : Machine β}
    (h : Pushed base (storedRegisters list) (machine.withStream stream) after) :
    ListPushed base (listedBits list) machine after where
  address_eq := by
    rw [h.cpu_eq]
    rfl
  slot_eq hk := Contents.bytes_slot (h.quad_eq (List.getElem?_eq_getElem hk)) (h.padding_eq hk)
  memory_frame hout := h.frame hout
  fp_eq := by
    rw [h.cpu_eq]
    rfl
  cycles_eq := by
    rw [h.cpu_eq]
    rfl

theorem listPopped_of_popped {base : Fin 8} {list : UInt8} {stream : InstructionStream}
    {after : Machine β}
    (h : Popped base (loadedRegisters list) (machine.withStream stream) after) :
    ListPopped base (listedBits list) machine after where
  address_eq := by
    rw [h.cpu_eq, slotBytes, length_loadedRegisters]
    rfl
  fp_eq {k} hk := by
    -- The register loaded `k`-th is the one that mirrors the bit.
    have hregister : (loadedRegisters list)[k]? = some (listedBits list)[k].rev := by
      rw [loadedRegisters, List.getElem?_map, List.getElem?_eq_getElem hk, Option.map_some]
    rw [h.fp_eq hregister, Contents.quad_eq_ofNat_decode]
    rfl
  fp_frame {n} hn := by
    refine h.fp_frame fun hmem => hn ?_
    obtain ⟨bit, hbit, rfl⟩ := List.mem_map.mp hmem
    rwa [Fin.rev_rev]
  memory_eq := by
    rw [h.bus_eq]
    rfl
  cycles_eq := by
    rw [h.cpu_eq, length_loadedRegisters]
    rfl

/-- A step that moves a register list and is refused nothing completes, and lays the registers out in
the order of the set bits. -/
theorem listPushed_listPopped_step {n : Fin 8} {list : UInt8} {bits : List (Fin 8)}
    (hbits : SetBits list bits) (hfault : machine.step.fault ≠ some .busError) :
    ((contents machine.bus).HoldsCommand machine.cpu.pc (.preDecrement n)
        (.moveMultiple true 0 list) →
      machine.step.fault = none ∧ ListPushed n bits machine machine.step.machine) ∧
    ((contents machine.bus).HoldsCommand machine.cpu.pc (.postIncrement n)
        (.moveMultiple false 2 list) →
      machine.step.fault = none ∧ ListPopped n bits machine machine.step.machine) := by
  rw [hbits.eq_listedBits]
  refine ⟨fun hpush => ?_, fun hpop => ?_⟩
  · obtain ⟨hnone, stream, -, hpushed⟩ := pushed_step hpush hfault
    exact ⟨hnone, listPushed_of_pushed hpushed⟩
  · obtain ⟨hnone, stream, -, hpopped⟩ := popped_step hpop hfault
    exact ⟨hnone, listPopped_of_popped hpopped⟩

/-- A machine with the stack pointer close to zero, about to execute one command on a list of bits 0
and 2. -/
def aboutToMoveTwo (opcode second : UInt8) : Machine SparseMemory where
  cpu := {
    pc := 0x400
    address := Bank.fill 8
    fp := ⟨#v[⟨0x3FF0000000000000⟩, ⟨0⟩, ⟨0x7FF0000000000001⟩, ⟨0⟩, ⟨0⟩, ⟨0⟩, ⟨0⟩, ⟨0⟩]⟩ }
  bus := ByteAddressed.storeBytes {} 0x400 [0xF2, opcode, second, 0x05]

/-- The slots of a push run over the end of the address space; those of a pop, from the same address
register, do not. -/
theorem listPushed_listPopped_step_wrapping :
    ListPushed 7 [0, 2] (aboutToMoveTwo 0x27 0xE0) (aboutToMoveTwo 0x27 0xE0).step.machine ∧
      (aboutToMoveTwo 0x27 0xE0).step.machine.cpu.address.get 7 = 0xFFFFFFF0 ∧
      ListPopped 7 [0, 2] (aboutToMoveTwo 0x1F 0xD0) (aboutToMoveTwo 0x1F 0xD0).step.machine := by
  have hbits : SetBits 0x05 [0, 2] := ⟨by decide, by decide⟩
  have hpush : (contents (aboutToMoveTwo 0x27 0xE0).bus).HoldsCommand
      (aboutToMoveTwo 0x27 0xE0).cpu.pc (.preDecrement 7) (.moveMultiple true 0 0x05) := by
    constructor <;> decide +kernel
  have hpop : (contents (aboutToMoveTwo 0x1F 0xD0).bus).HoldsCommand
      (aboutToMoveTwo 0x1F 0xD0).cpu.pc (.postIncrement 7) (.moveMultiple false 2 0x05) := by
    constructor <;> decide +kernel
  obtain ⟨-, hpushed⟩ := (listPushed_listPopped_step hbits (by decide +kernel)).1 hpush
  obtain ⟨-, hpopped⟩ := (listPushed_listPopped_step hbits (by decide +kernel)).2 hpop
  exact ⟨hpushed, by decide +kernel, hpopped⟩

end Machine

end M68Fpu
