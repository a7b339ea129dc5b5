import M68Fpu.Proofs.RegisterStack
import M68Fpu.Proofs.Step

/-!
# Register lists pushed and popped

Bit `n` of a list byte stands for register `n` when registers are pushed and for register `7 - n`
when they are popped, and both walk the bits from the lowest up. A pop meets the slots in the
opposite order of the push, so of two lists with equally many bits the `k`-th register popped gets
the value of the `k`-th last register pushed (`Transferred`). A list that is popped with its bits
reversed gives every register its own value back.
-/

namespace M68Fpu

/-! ## Lists of bits -/

theorem nodup_listedBits (list : UInt8) : (listedBits list).Nodup :=
  List.Pairwise.filter _ (by decide)

theorem nodup_loadedRegisters (list : UInt8) : (loadedRegisters list).Nodup :=
  List.Pairwise.map Fin.rev (fun _ _ hne hrev => hne (Fin.rev_inj.mp hrev)) (nodup_listedBits list)

theorem length_listedBits_le (list : UInt8) : (listedBits list).length ≤ 8 :=
  List.length_filter_le _ _

theorem slotBytes_storedRegisters_le (list : UInt8) :
    slotBytes (storedRegisters list) ≤ 0x100000000 := by
  have hlength : (storedRegisters list).length ≤ 8 := length_listedBits_le list
  simp only [slotBytes, Width.bytes]
  omega

@[simp] theorem length_loadedRegisters (list : UInt8) :
    (loadedRegisters list).length = (listedBits list).length :=
  List.length_map _

/-- Whether the bits of one list byte are those of the other from the top down. -/
def BitReversed (first second : UInt8) : Prop :=
  ∀ n : Fin 8, first.toNat.testBit n.rev = second.toNat.testBit n

instance (first second : UInt8) : Decidable (BitReversed first second) :=
  inferInstanceAs (Decidable (∀ _, _))

/-- A list byte with reversed bits loads the registers that the other one stores, in the opposite
order. -/
theorem loadedRegisters_of_bitReversed {popped pushed : UInt8} (h : BitReversed popped pushed) :
    loadedRegisters popped = (storedRegisters pushed).reverse := by
  -- Filtering by the reversed bits is reversing, filtering and reversing back.
  have hbits : (fun n : Fin 8 => popped.toNat.testBit n)
      = (fun n : Fin 8 => pushed.toNat.testBit n) ∘ Fin.rev := by
    funext n
    simpa using h n.rev
  unfold loadedRegisters storedRegisters listedBits
  rw [hbits, ← List.filter_map, ← List.finRange_reverse, List.filter_reverse]

/-! ## Commands in memory -/

/-- Whether memory holds, at an address, an opcode with a command word behind it. -/
structure Contents.HoldsCommand (contents : Contents) (address : UInt32) (place : EffectiveAddress)
    (fields : Command) : Prop where
  group : OpcodeGroup.decode (contents.word address) = .general
  operation : GeneralOp.decode (contents.word address) = some .command
  place : EffectiveAddress.decode (addressField (contents.word address)) = some place
  fields : Command.decode (contents.word (address + 2)) = some fields

instance (contents : Contents) (address : UInt32) (place : EffectiveAddress) (fields : Command) :
    Decidable (contents.HoldsCommand address place fields) :=
  decidable_of_iff
    (OpcodeGroup.decode (contents.word address) = .general ∧
      GeneralOp.decode (contents.word address) = some .command ∧
      EffectiveAddress.decode (addressField (contents.word address)) = some place ∧
      Command.decode (contents.word (address + 2)) = some fields)
    ⟨fun ⟨group, operation, place, fields⟩ => ⟨group, operation, place, fields⟩,
      fun ⟨group, operation, place, fields⟩ => ⟨group, operation, place, fields⟩⟩

/-- A command stays where it is as long as none of its four bytes changes. -/
theorem Contents.HoldsCommand.congr {first second : Contents} {address : UInt32}
    {place : EffectiveAddress} {fields : Command} (h : first.HoldsCommand address place fields)
    (hsame : ∀ other, Within address 4 other → first other = second other) :
    second.HoldsCommand address place fields := by
  have hopcode : first.word address = second.word address :=
    word_congr fun other hother => hsame other (Nat.lt_trans hother (by omega))
  have hsecond : first.word (address + 2) = second.word (address + 2) :=
    word_congr fun other hother =>
      hsame other (within_of_within_offset 2 (by omega) (by omega) hother)
  obtain ⟨hgroup, hoperation, hplace, hfields⟩ := h
  rw [hopcode] at hgroup hoperation hplace
  rw [hsecond] at hfields
  exact ⟨hgroup, hoperation, hplace, hfields⟩

namespace EffectiveAddress

theorem registerOf_of_preDecrement {field : UInt8} {n : Fin 8}
    (h : decode field = some (.preDecrement n)) : registerOf field = n := by
  simp only [decode] at h
  split at h <;> try cases h
  · rfl
  · split at h <;> cases h

theorem registerOf_of_postIncrement {field : UInt8} {n : Fin 8}
    (h : decode field = some (.postIncrement n)) : registerOf field = n := by
  simp only [decode] at h
  split at h <;> try cases h
  · rfl
  · split at h <;> cases h

end EffectiveAddress

namespace Fetch

variable {β : Type} [Bus β] {n : Fin 8} {stream : InstructionStream}

/-- A register list whose stack place is supported needs nothing behind the command word. -/
theorem stack_of_supported {direction : Direction} {place : EffectiveAddress} {target : Location}
    (hplace : EffectiveAddress.decode (addressField stream.ir) = some place)
    (hsupports : (⟨.extended, direction⟩ : Access).supports place = true)
    (hlocate : ∀ bus : β, locate ⟨.extended, direction⟩ place bus stream = .ok target stream)
    (registers : List (Fin 8)) (bus : β) :
    stack direction registers bus stream
      = .ok (EffectiveAddress.registerOf (addressField stream.ir)) stream := by
  cases registers with
  | nil => rfl
  | cons n rest =>
    show (discard (location ⟨.extended, direction⟩) >>= _ : Fetch β (Fin 8)) bus stream = _
    rw [bind_apply, discard_apply, location_of_supported hplace hsupports, hlocate]
    rfl

theorem moveMultiple_push (bus : β) (list : UInt8)
    (hplace : EffectiveAddress.decode (addressField stream.ir) = some (.preDecrement n)) :
    moveMultiple true 0 list bus stream
      = .ok (.storeMultiple n (storedRegisters list)) stream := by
  show (stack .write (storedRegisters list) >>= _ : Fetch β Instruction) bus stream = _
  rw [bind_apply, stack_of_supported hplace rfl (fun _ => rfl),
    EffectiveAddress.registerOf_of_preDecrement hplace]
  rfl

theorem moveMultiple_pop (bus : β) (list : UInt8)
    (hplace : EffectiveAddress.decode (addressField stream.ir) = some (.postIncrement n)) :
    moveMultiple false 2 list bus stream
      = .ok (.loadMultiple n (loadedRegisters list)) stream := by
  show (stack .read (loadedRegisters list) >>= _ : Fetch β Instruction) bus stream = _
  rw [bind_apply, stack_of_supported hplace rfl (fun _ => rfl),
    EffectiveAddress.registerOf_of_postIncrement hplace]
  rfl

end Fetch

/-! ## A push and a pop -/

namespace Machine

open Exec (Pushed Popped)
open ByteMemory (contents)

variable {β : Type} [Bus β] [ByteMemory β] {machine : Machine β}

/-- The bus has both words of the command at the program counter, or the step would have ended
there. -/
theorem words_of_holdsCommand {place : EffectiveAddress} {fields : Command}
    (h : (contents machine.bus).HoldsCommand machine.cpu.pc place fields)
    (hfault : machine.step.fault ≠ some .busError) :
    ∃ opcode second, Bus.read16 machine.bus machine.cpu.pc = some opcode ∧
      Bus.read16 machine.bus (machine.cpu.pc + 2) = some second ∧
      OpcodeGroup.decode opcode = .general ∧ GeneralOp.decode opcode = some .command ∧
      EffectiveAddress.decode (addressField opcode) = some place ∧
      Command.decode second = some fields := by
  obtain ⟨hgroup, hoperation, hplace, hfields⟩ := h
  cases hopcode : Bus.read16 machine.bus machine.cpu.pc with
  | none =>
    rw [step_of_fetch_error (Fetch.instruction_of_refusal hopcode)] at hfault
    exact absurd rfl hfault
  | some opcode =>
    rw [← ByteMemory.read16_eq hopcode] at hgroup hoperation hplace
    cases hsecond : Bus.read16 machine.bus (machine.cpu.pc + 2) with
    | none =>
      have hfetch : machine.fetch
          = Fetch.command machine.bus ((machine.stream machine.cpu.pc).afterOpcode opcode) :=
        Fetch.instruction_of_operation hopcode hgroup hoperation
      rw [step_of_fetch_error (hfetch.trans (Fetch.command_of_refusal hsecond))] at hfault
      exact absurd rfl hfault
    | some second =>
      rw [← ByteMemory.read16_eq hsecond] at hfields
      exact ⟨opcode, second, rfl, rfl, hgroup, hoperation, hplace, hfields⟩

/-- The command at the program counter is fetched unless the bus refuses one of its words. -/
theorem fetch_of_holdsCommand {place : EffectiveAddress} {fields : Command}
    (h : (contents machine.bus).HoldsCommand machine.cpu.pc place fields)
    (hfault : machine.step.fault ≠ some .busError) :
    ∃ stream : InstructionStream, stream.pc = machine.cpu.pc + 4 ∧
      EffectiveAddress.decode (addressField stream.ir) = some place ∧
      machine.fetch = Fetch.ofCommand fields machine.bus stream := by
  obtain ⟨opcode, second, hopcode, hsecond, hgroup, hoperation, hplace, hfields⟩ :=
    words_of_holdsCommand h hfault
  have hfetch : machine.fetch
      = Fetch.command machine.bus ((machine.stream machine.cpu.pc).afterOpcode opcode) :=
    Fetch.instruction_of_operation hopcode hgroup hoperation
  refine ⟨_, ?_, ?_, hfetch.trans (Fetch.command_of_read hsecond hfields)⟩
  · exact UInt32.add_assoc _ _ _
  · exact hplace

theorem pushed_step {n : Fin 8} {list : UInt8}
    (h : (contents machine.bus).HoldsCommand machine.cpu.pc (.preDecrement n)
      (.moveMultiple true 0 list))
    (hfault : machine.step.fault ≠ some .busError) :
    machine.step.fault = none ∧ ∃ stream : InstructionStream, stream.pc = machine.cpu.pc + 4 ∧
      Pushed n (storedRegisters list) (machine.withStream stream) machine.step.machine := by
  obtain ⟨stream, hpc, hplace, hfetch⟩ := fetch_of_holdsCommand h hfault
  obtain ⟨hnone, hexecute⟩ :=
    execute_of_fetch (hfetch.trans (Fetch.moveMultiple_push _ list hplace)) hfault
  have hbytes := slotBytes_storedRegisters_le list
  exact ⟨hnone, stream, hpc, Exec.pushed_of_storeMultiple hbytes hexecute⟩

theorem popped_step {n : Fin 8} {list : UInt8}
    (h : (contents machine.bus).HoldsCommand machine.cpu.pc (.postIncrement n)
      (.moveMultiple false 2 list))
    (hfault : machine.step.fault ≠ some .busError) :
    machine.step.fault = none ∧ ∃ stream : InstructionStream, stream.pc = machine.cpu.pc + 4 ∧
      Popped n (loadedRegisters list) (machine.withStream stream) machine.step.machine := by
  obtain ⟨stream, hpc, hplace, hfetch⟩ := fetch_of_holdsCommand h hfault
  obtain ⟨hnone, hexecute⟩ :=
    execute_of_fetch (hfetch.trans (Fetch.moveMultiple_pop _ list hplace)) hfault
  exact ⟨hnone, stream, hpc, Exec.popped_of_loadMultiple (nodup_loadedRegisters list) hexecute⟩

/-- What a push of one list and a pop of another with equally many bits do together. -/
structure Transferred (pushed popped : UInt8) (before after : Cpu) : Prop where
  /-- The register of the `k`-th bit popped takes the value of the `k`-th last bit pushed. -/
  fp_eq {k : Nat} {source target : Fin 8} :
    (listedBits popped)[k]? = some target →
    (listedBits pushed)[(listedBits pushed).length - 1 - k]? = some source →
    after.fp.get target.rev = before.fp.get source
  fp_frame {n : Fin 8} : (∀ target ∈ listedBits popped, n ≠ target.rev) →
    after.fp.get n = before.fp.get n
  fpcr_eq : after.fpcr = before.fpcr
  fpsr_eq : after.fpsr = before.fpsr
  fpiar_eq : after.fpiar = before.fpiar
  data_eq : after.data = before.data
  address_eq : after.address = before.address

/-- A pop right after a push meets the slots in the opposite order. -/
theorem transferred_of_pushed {before between popping after : Machine β} {n : Fin 8}
    {pushed popped : UInt8} {stream : InstructionStream}
    (hcount : (listedBits pushed).length = (listedBits popped).length)
    (hpushed : Pushed n (storedRegisters pushed) before between)
    (hpopping : popping = between.withStream stream)
    (hpopped : Popped n (loadedRegisters popped) popping after) :
    Transferred pushed popped before.cpu after.cpu := by
  have hbus : popping.bus = between.bus := by rw [hpopping]; rfl
  have hcpu : popping.cpu = { between.cpu with pc := stream.pc, ir := stream.ir } := by
    rw [hpopping]
    rfl
  have hstored : slotBytes (storedRegisters pushed) = 12 * (listedBits pushed).length := rfl
  have hloaded : slotBytes (loadedRegisters popped) = 12 * (listedBits pushed).length := by
    rw [slotBytes, length_loadedRegisters, ← hcount]
    rfl
  have hbase : popping.cpu.address.get n
      = before.cpu.address.get n - UInt32.ofNat (12 * (listedBits pushed).length) := by
    rw [hcpu, hpushed.cpu_eq, hstored]
    exact Bank.get_put_self _ _ _
  refine ⟨?_, ?_, ?_, ?_, ?_, ?_, ?_⟩
  · intro k source target htarget hsource
    have hk : k < (listedBits popped).length := (List.getElem?_eq_some_iff.mp htarget).1
    -- The slot with number `k` from below is the one with number `m - 1 - k` from above.
    have hslot := slotAbove_sub (before.cpu.address.get n) (hcount ▸ hk)
    have hregister : (loadedRegisters popped)[k]? = some target.rev := by
      rw [loadedRegisters, List.getElem?_map, htarget]
      rfl
    rw [hpopped.fp_eq hregister, hbase, hslot, hbus, hpushed.quad_eq hsource]
  · intro register hregister
    have hfresh : register ∉ loadedRegisters popped := by
      intro hmem
      obtain ⟨target, htarget, heq⟩ := List.mem_map.mp hmem
      exact hregister target htarget heq.symm
    rw [hpopped.fp_frame hfresh, hcpu, hpushed.cpu_eq]
  · rw [hpopped.cpu_eq, hcpu, hpushed.cpu_eq]
  · rw [hpopped.cpu_eq, hcpu, hpushed.cpu_eq]
  · rw [hpopped.cpu_eq, hcpu, hpushed.cpu_eq]
  · rw [hpopped.cpu_eq, hcpu, hpushed.cpu_eq]
  -- The pop moves the address register back up by as much as the push moved it down.
  · rw [hpopped.cpu_eq, hbase, hloaded, UInt32.sub_add_cancel, hcpu, hpushed.cpu_eq]
    simp

/-- A list that is popped with its bits reversed gives every register its own value back. -/
theorem Transferred.fp_eq_of_bitReversed {pushed popped : UInt8} {before after : Cpu}
    (h : Transferred pushed popped before after) (hreversed : BitReversed popped pushed) :
    after.fp = before.fp := by
  have hloaded := loadedRegisters_of_bitReversed hreversed
  have hcount := congrArg List.length hloaded
  rw [length_loadedRegisters, List.length_reverse] at hcount
  apply Bank.ext_get
  intro n
  by_cases hn : n ∈ loadedRegisters popped
  -- A register that was popped comes from the place where it was pushed itself.
  · obtain ⟨k, hk⟩ := List.getElem?_of_mem hn
    obtain ⟨target, htarget, rfl⟩ : ∃ target, (listedBits popped)[k]? = some target ∧
        target.rev = n := by
      rw [loadedRegisters, List.getElem?_map] at hk
      exact Option.map_eq_some_iff.mp hk
    have hlt : k < (storedRegisters pushed).length := by
      rw [← hcount]
      exact (List.getElem?_eq_some_iff.mp htarget).1
    rw [hloaded, List.getElem?_reverse hlt] at hk
    exact h.fp_eq htarget hk
  · apply h.fp_frame
    rintro target htarget rfl
    exact hn (List.mem_map_of_mem htarget)

theorem length_listedBits_of_bitReversed {pushed popped : UInt8}
    (h : BitReversed popped pushed) :
    (listedBits pushed).length = (listedBits popped).length := by
  have hlength := congrArg List.length (loadedRegisters_of_bitReversed h)
  rw [length_loadedRegisters, List.length_reverse] at hlength
  exact hlength.symm

/-- A push and a pop behind it, which the push does not overwrite, move every register to one place;
a list popped with its bits reversed restores them all. -/
theorem transferred_push_pop {n : Fin 8} {pushed popped : UInt8}
    (hpush : (contents machine.bus).HoldsCommand machine.cpu.pc (.preDecrement n)
      (.moveMultiple true 0 pushed))
    (hpop : (contents machine.bus).HoldsCommand (machine.cpu.pc + 4) (.postIncrement n)
      (.moveMultiple false 2 popped))
    (hapart : Apart (machine.cpu.pc + 4) 4
      (machine.cpu.address.get n - UInt32.ofNat (12 * (listedBits pushed).length))
      (12 * (listedBits pushed).length))
    (hfirst : machine.step.fault ≠ some .busError)
    (hsecond : machine.step.machine.step.fault ≠ some .busError) :
    machine.step.fault = none ∧ machine.step.machine.step.fault = none ∧
      ((listedBits pushed).length = (listedBits popped).length →
        Transferred pushed popped machine.cpu machine.step.machine.step.machine.cpu) ∧
      (BitReversed popped pushed →
        Transferred pushed popped machine.cpu machine.step.machine.step.machine.cpu ∧
          machine.step.machine.step.machine.cpu.fp = machine.cpu.fp) := by
  obtain ⟨hnone, stream, hpc, hpushed⟩ := pushed_step hpush hfirst
  have hbetween : machine.step.machine.cpu.pc = machine.cpu.pc + 4 := by
    rw [hpushed.cpu_eq]
    exact hpc
  -- The push left the words of the pop alone, so that is what the second step fetches.
  have hkept : (contents machine.step.machine.bus).HoldsCommand machine.step.machine.cpu.pc
      (.postIncrement n) (.moveMultiple false 2 popped) := by
    rw [hbetween]
    exact hpop.congr fun other hother => (hpushed.frame (hapart other hother)).symm
  obtain ⟨hnone', stream', -, hpopped⟩ := popped_step hkept hsecond
  have htransferred (hcount : (listedBits pushed).length = (listedBits popped).length) :
      Transferred pushed popped machine.cpu machine.step.machine.step.machine.cpu := by
    have h := transferred_of_pushed hcount hpushed rfl hpopped
    exact ⟨h.fp_eq, h.fp_frame, h.fpcr_eq, h.fpsr_eq, h.fpiar_eq, h.data_eq, h.address_eq⟩
  refine ⟨hnone, hnone', htransferred, fun hreversed => ?_⟩
  have h := htransferred (length_listedBits_of_bitReversed hreversed)
  exact ⟨h, h.fp_eq_of_bitReversed hreversed⟩

/-- A machine about to push FP0, FP2 and FP5 and to pop them with the list reversed. -/
def aboutToPushAndPop : Machine FlatMemory where
  cpu := {
    pc := 0x400
    address := Bank.fill 0x2000
    fp := ⟨#v[⟨0x3FF0000000000000⟩, ⟨0⟩, ⟨0x7FF0000000000001⟩, ⟨0⟩, ⟨0⟩, ⟨0xC008000000000000⟩,
      ⟨0⟩, ⟨0⟩]⟩ }
  bus := .ofProgram 0x10000 0x400 [0xF2, 0x21, 0xE0, 0x25, 0xF2, 0x19, 0xD0, 0xA4]

/-- The three registers come back, the signalling NaN in FP2 included. -/
theorem transferred_push_pop_sparse :
    BitReversed 0xA4 0x25 ∧
      aboutToPushAndPop.step.machine.step.machine.cpu.fp = aboutToPushAndPop.cpu.fp := by
  have hreversed : BitReversed 0xA4 0x25 := by decide
  have hpush : (contents aboutToPushAndPop.bus).HoldsCommand aboutToPushAndPop.cpu.pc
      (.preDecrement 1) (.moveMultiple true 0 0x25) := by
    constructor <;> decide +kernel
  have hpop : (contents aboutToPushAndPop.bus).HoldsCommand (aboutToPushAndPop.cpu.pc + 4)
      (.postIncrement 1) (.moveMultiple false 2 0xA4) := by
    constructor <;> decide +kernel
  have hapart : Apart (aboutToPushAndPop.cpu.pc + 4) 4
      (aboutToPushAndPop.cpu.address.get 1 - UInt32.ofNat (12 * (listedBits 0x25).length))
      (12 * (listedBits 0x25).length) :=
    apart_of_offsets 0 0x404 0x1FDC (by decide) (by decide)
  obtain ⟨-, -, -, hrestored⟩ := transferred_push_pop hpush hpop hapart
    (by decide +kernel) (by decide +kernel)
  exact ⟨hreversed, (hrestored hreversed).2⟩

end Machine

end M68Fpu
