import M68Fpu.Computer
import M68Fpu.Proofs.BusSimulation
import M68Fpu.Proofs.Memory.ByteMemory

/-!
# Flat memory in place of the computer's memory

The memory map of the computer refuses more than flat memory of the same size: writes to the
read-only part, and accesses across its end. Where it refuses nothing, the two cannot be told apart
as long as they hold the same bytes (`Memory.MirroredBy`): a processor that runs on one of them
without a refused access does the same on the other, and leaves the same bytes behind
(`Computer.matches_flat`).
-/

namespace M68Fpu

namespace Memory

/-! ## Mirrors -/

/-- Whether flat memory ends where the random access memory ends and holds the same bytes, those of
the read-only memory included, and has seen as many branches. -/
structure MirroredBy (memory : Memory) (flat : FlatMemory) : Prop where
  size_eq : flat.size = ramEnd
  load_eq {address : UInt32} : address.toNat < ramEnd →
    ByteAddressed.load flat address = ByteAddressed.load memory address
  branches_eq : flat.branches = memory.branches

/-- The bytes that the read-only memory shows. -/
def romBytes (memory : Memory) : List UInt8 :=
  (List.range romEnd).map fun offset => memory.image.getD offset 0

/-- Flat memory with the bytes of a memory. -/
def flatten (memory : Memory) : FlatMemory :=
  ByteAddressed.storeBytes { size := ramEnd, contents := memory.ram, branches := memory.branches } 0
    memory.romBytes

variable {memory after : Memory} {flat : FlatMemory}

theorem mirroredBy_flatten (memory : Memory) : memory.MirroredBy memory.flatten := by
  have hlength : memory.romBytes.length = romEnd := by simp [romBytes]
  let blank : FlatMemory := { size := ramEnd, contents := memory.ram, branches := memory.branches }
  refine ⟨?_, fun {address} _ => ?_, ?_⟩
  · exact ByteAddressed.storeBytes_frame FlatMemory.size (fun _ _ _ => rfl) blank 0 _
  · have hwritable : ByteAddressed.writable blank 0 memory.romBytes.length = true := by
      rw [blank.writable_iff, hlength]
      show 0 + romEnd ≤ ramEnd
      decide
    have hload := ByteAddressed.load_storeBytes hwritable (by rw [hlength]; decide)
    have hflat : ByteAddressed.load (ByteAddressed.storeBytes blank 0 memory.romBytes) address
        = memory.romBytes[address.toNat]?.getD (ByteAddressed.load blank address) := by
      simpa [Contents.overwrite] using congrFun hload address
    show _ = if address.toNat < romEnd then memory.image.getD address.toNat 0
      else memory.ram.load address
    rw [flatten, hflat]
    by_cases hrom : address.toNat < romEnd
    · rw [if_pos hrom, List.getElem?_eq_getElem (by rw [hlength]; exact hrom)]
      simp [romBytes]
    · rw [if_neg hrom, List.getElem?_eq_none (by rw [hlength]; exact Nat.le_of_not_lt hrom)]
      rfl
  · exact ByteAddressed.storeBytes_frame FlatMemory.branches (fun _ _ _ => rfl) blank 0 _

namespace MirroredBy

/-! ## Accesses to a mirror -/

theorem bytes_eq (h : memory.MirroredBy flat) {address : UInt32} {count : Nat}
    (hend : address.toNat + count ≤ ramEnd) :
    Contents.bytes (ByteAddressed.load flat) address count
      = Contents.bytes (ByteAddressed.load memory) address count := by
  apply Contents.bytes_congr
  · intro other hwithin
    apply h.load_eq
    have haddress := address.toNat_lt
    have hother := other.toNat_lt
    simp only [Within, UInt32.toNat_sub] at hwithin
    omega
  · simp only [ramEnd] at hend
    omega

theorem read (h : memory.MirroredBy flat) {address : UInt32} {count value : Nat}
    (hread : ByteAddressed.read memory address count = some value) :
    ByteAddressed.read flat address count = some value := by
  have hvalue := ByteAddressed.read_eq_some hread
  unfold ByteAddressed.read at hread
  split at hread
  case isFalse => cases hread
  case isTrue hreadable =>
    have hend : address.toNat + count ≤ ramEnd := by
      have hrange := (memory.readable_iff address count).mp hreadable
      simp only [romEnd, ramEnd] at hrange ⊢
      omega
    have hinside : ByteAddressed.readable flat address count = true :=
      (flat.readable_iff address count).mpr (h.size_eq ▸ hend)
    unfold ByteAddressed.read
    rw [if_pos hinside, hvalue, ByteAddressed.loadBytes_eq, h.bytes_eq hend]

theorem write (h : memory.MirroredBy flat) {address : UInt32} {count value : Nat}
    (hwrite : ByteAddressed.write memory address count value = some after) :
    ∃ flatAfter : FlatMemory, ByteAddressed.write flat address count value = some flatAfter ∧
      after.MirroredBy flatAfter := by
  unfold ByteAddressed.write at hwrite
  split at hwrite
  case isFalse => cases hwrite
  case isTrue hwritable =>
    obtain rfl := Option.some.inj hwrite
    have hend := ((memory.writable_iff address count).mp hwritable).2
    have hinside : ByteAddressed.writable flat address count = true :=
      (flat.writable_iff address count).mpr (h.size_eq ▸ hend)
    have hcount : count ≤ 0x100000000 := by
      simp only [ramEnd] at hend
      omega
    have hflat : ByteAddressed.write flat address count value = some _ := if_pos hinside
    have hmemory : ByteAddressed.write memory address count value = some _ := if_pos hwritable
    refine ⟨_, hflat, ?_, fun {other} hother => ?_, ?_⟩
    · exact (ByteAddressed.write_frame FlatMemory.size (fun _ _ _ => rfl) hflat).trans h.size_eq
    · -- Both memories hold the new bytes in the range, and what they held before outside of it.
      rw [ByteAddressed.write_eq_some hcount hflat, ByteAddressed.write_eq_some hcount hmemory]
      simp only [Contents.overwrite, h.load_eq hother]
    · exact (ByteAddressed.write_frame FlatMemory.branches (fun _ _ _ => rfl) hflat).trans
        (h.branches_eq.trans
          (ByteAddressed.write_frame Memory.branches (fun _ _ _ => rfl) hmemory).symm)

theorem traceBranch (h : memory.MirroredBy flat) :
    (Bus.traceBranch memory).MirroredBy (Bus.traceBranch flat) :=
  ⟨h.size_eq, h.load_eq, congrArg (· + 1) h.branches_eq⟩

end MirroredBy

/-- A mirror accepts what the memory accepts, and stays a mirror. -/
theorem imitates_mirroredBy : Bus.Imitates MirroredBy where
  read8 h hread := by
    obtain ⟨value, hvalue, rfl⟩ := Option.map_eq_some_iff.mp hread
    exact congrArg (Option.map UInt8.ofNat) (h.read hvalue)
  read16 h hread := by
    obtain ⟨value, hvalue, rfl⟩ := Option.map_eq_some_iff.mp hread
    exact congrArg (Option.map UInt16.ofNat) (h.read hvalue)
  read32 h hread := by
    obtain ⟨value, hvalue, rfl⟩ := Option.map_eq_some_iff.mp hread
    exact congrArg (Option.map UInt32.ofNat) (h.read hvalue)
  write8 h hwrite := h.write hwrite
  write16 h hwrite := h.write hwrite
  write32 h hwrite := h.write hwrite
  traceBranch h := h.traceBranch

end Memory

namespace Computer

/-- As long as the computer's memory refuses nothing, a processor cannot tell it from flat memory with
the same bytes. -/
theorem matches_flat {computer : Computer} {flat : Machine FlatMemory} {calls : List Call}
    (hcpu : computer.cpu = flat.cpu) (hbus : computer.bus.MirroredBy flat.bus)
    (hfault : ∀ outcome ∈ computer.outcomes calls, outcome.fault ≠ some .busError) :
    List.Forall₂ (Outcome.Matches Memory.MirroredBy) (computer.outcomes calls)
        (flat.outcomes calls) ∧
      (computer.afterCalls calls).bus.MirroredBy (flat.afterCalls calls).bus :=
  Machine.matches_outcomes Memory.imitates_mirroredBy hcpu hbus hfault

/-- The same processor on flat memory. -/
def flatten (computer : Computer) : Machine FlatMemory where
  cpu := computer.cpu
  bus := computer.bus.flatten

theorem mirroredBy_flatten (computer : Computer) :
    computer.bus.MirroredBy computer.flatten.bus := by
  dsimp only [flatten]
  exact computer.bus.mirroredBy_flatten

/-- A computer that loads 3 into FP0, pushes it as a double on the stack at `100000`, branches to the
next instruction, and meets an opcode that is none of the FPU. -/
def aboutToPush : Computer :=
  .ofImage [0x00, 0x10, 0x00, 0x00, 0x00, 0x00, 0x00, 0x08,
    0xF2, 0x3C, 0x40, 0x00, 0x00, 0x00, 0x00, 0x03, 0xF2, 0x27, 0x74, 0x00,
    0xF2, 0x8F, 0x00, 0x02, 0x4E, 0x71]

def callsToIllegal : List Call := [.reset, .step, .step, .step, .step]

/-- The rejected opcode is no refused access, so the run matches up to it and with it. -/
theorem matches_flat_up_to_illegal :
    (aboutToPush.outcomes callsToIllegal).map Outcome.fault
        = [none, none, none, none, some (.illegalInstruction 0x4E71)] ∧
      List.Forall₂ (Outcome.Matches Memory.MirroredBy) (aboutToPush.outcomes callsToIllegal)
        (aboutToPush.flatten.outcomes callsToIllegal) := by
  have hcpu : aboutToPush.cpu = aboutToPush.flatten.cpu := rfl
  have hbus := aboutToPush.mirroredBy_flatten
  have hfault : ∀ outcome ∈ aboutToPush.outcomes callsToIllegal,
      outcome.fault ≠ some .busError := by
    decide +kernel
  exact ⟨by decide +kernel, (matches_flat hcpu hbus hfault).1⟩

end Computer

end M68Fpu
