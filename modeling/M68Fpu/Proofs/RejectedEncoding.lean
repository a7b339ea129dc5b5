import M68Fpu.Bus.Flat
import M68Fpu.Proofs.Step

/-!
# Rejected encodings change nothing

All that can be wrong with an encoding is found while the instruction is fetched, and a fetch reads
and does nothing else. So a step that ends in a fault other than a refused access leaves memory and
every register as they were: only the program counter has moved, past the bytes that were read, the
instruction register holds the opcode, and the processor is stopped.
-/

namespace M68Fpu

namespace Machine

open InstructionStream (Advances Covers Fails fetchedBytes)

variable {β : Type} [Bus β] {machine : Machine β} {fault : Fault}

/-- What a rejected instruction leaves behind. -/
structure RejectedAtomically (machine : Machine β) (fault : Fault) (after : Machine β) : Prop where
  /-- Memory and the count of branches are as before. -/
  bus_eq : after.bus = machine.bus
  /-- All that was done on the bus is reads of consecutive bytes of the instruction stream. -/
  covers : Covers machine.cpu.pc after.events after.cpu.pc
  no_write : ∀ size address value accepted, .write size address value accepted ∉ after.events
  no_branch : .branch ∉ after.events
  /-- Every register but the program counter and the instruction register is as before. -/
  cpu_eq : ∃ opcode, Bus.read16 machine.bus machine.cpu.pc = some opcode ∧
    (∀ illegal, fault = .illegalInstruction illegal → illegal = opcode) ∧
    after.cpu = { machine.cpu with
      pc := machine.cpu.pc + UInt32.ofNat (fetchedBytes after.events)
      ir := opcode
      stopped := true }
  /-- A fault that names an address names that of the instruction. -/
  address_eq : ∀ cause address, fault = .decode cause address → address = machine.cpu.pc

/-- A fetch that rejects the encoding has fetched an opcode and what it read from behind it. -/
theorem advances_of_rejection {stream : InstructionStream}
    (h : machine.fetch = .error fault stream) (hfault : fault ≠ .busError) :
    ∃ opcode, Bus.read16 machine.bus machine.cpu.pc = some opcode ∧
      Advances machine.bus ((machine.stream machine.cpu.pc).afterOpcode opcode) stream ∧
      ((fault = .illegalInstruction opcode) ∨ ∃ cause, fault = .decode cause machine.cpu.pc) := by
  rcases Fetch.instruction_error h with ⟨hbus, -⟩ | ⟨opcode, hread, ⟨hillegal, hstream⟩ | hfails⟩
  · exact absurd hbus hfault
  · exact ⟨opcode, hread, by rw [hstream]; exact .refl, .inl hillegal⟩
  · cases hfails with
    | rejected cause hadvances => exact ⟨opcode, hread, hadvances, .inr ⟨cause, rfl⟩⟩
    | refusedWord => exact absurd rfl hfault
    | refusedLong => exact absurd rfl hfault

/-- A fault of the encoding is fatal and atomic. -/
theorem rejectedAtomically_step (h : machine.step.fault = some fault) (hfault : fault ≠ .busError) :
    RejectedAtomically machine fault machine.step.machine := by
  obtain ⟨stream, hfetch, hafter⟩ := fetch_of_step_fault h hfault
  obtain ⟨opcode, hread, hadvances, hcause⟩ := advances_of_rejection hfetch hfault
  have hcovers := covers_of_advances hadvances
  have hir : stream.ir = opcode := hadvances.ir_eq
  -- The step left what the fetch left, stopped; the rest reads that off the reads of the fetch.
  rw [hafter]
  refine ⟨rfl, hcovers, ?_, ?_, ⟨opcode, hread, ?_, ?_⟩, ?_⟩
  · intro size address value accepted hwrite
    obtain ⟨_, _, _, heq⟩ := hcovers.eq_read hwrite
    cases heq
  · intro hbranch
    obtain ⟨_, _, _, heq⟩ := hcovers.eq_read hbranch
    cases heq
  · rintro illegal rfl
    rcases hcause with hillegal | ⟨cause, hdecode⟩
    · cases hillegal; rfl
    · cases hdecode
  · show { machine.cpu with pc := stream.pc, ir := stream.ir, stopped := true } = _
    rw [hir, hcovers.last_eq]
    rfl
  · rintro cause address rfl
    rcases hcause with hillegal | ⟨cause, hdecode⟩
    · cases hillegal
    · cases hdecode; rfl

/-- A machine about to load `(bd,A0,D1)`, whose extension word is in the full format. -/
def aboutToLoadFullIndex : Machine FlatMemory where
  cpu := { pc := 0x400, fpsr := 0x0F0000F8 }
  bus := .ofProgram 0x10000 0x400 [0xF2, 0x30, 0x40, 0x00, 0x11, 0x10]

/-- The extension word is read, found to be in the full format, and nothing else happens. -/
theorem rejectedAtomically_step_full_index :
    aboutToLoadFullIndex.step.fault = some (.decode (.indexFormat 0x1110) 0x400) ∧
      RejectedAtomically aboutToLoadFullIndex (.decode (.indexFormat 0x1110) 0x400)
        aboutToLoadFullIndex.step.machine := by
  have hfault : aboutToLoadFullIndex.step.fault = some (.decode (.indexFormat 0x1110) 0x400) := by
    decide +kernel
  exact ⟨hfault, rejectedAtomically_step hfault (by decide)⟩

end Machine

end M68Fpu
