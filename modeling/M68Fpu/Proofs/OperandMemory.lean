import M68Fpu.Proofs.OperandCommand
import M68Fpu.Proofs.RegisterList

/-!
# Commands and operands in memory

On a bus that is memory, a command with an operand can be read off the contents, and its step either
finds it there or ends in a refused access (`Machine.hasStore_of_holdsOperand`,
`Machine.hasOperation_of_holdsOperand`). An operation reads the bits that a store has written
(`Machine.operand_of_hasStore`), and a store keeps every byte outside of its operand
(`Machine.contents_of_stores`).
-/

namespace M68Fpu

/-! ## Contents -/

namespace Contents

variable {first second : Contents} {address : UInt32}

/-- The words from an address on. -/
def words (contents : Contents) (address : UInt32) : (count : Nat) → List UInt16
  | 0 => []
  | count + 1 => contents.word address :: contents.words (address + 2) count

@[simp] theorem length_words (contents : Contents) (address : UInt32) (count : Nat) :
    (contents.words address count).length = count := by
  induction count generalizing address with
  | zero => rfl
  | succ count ih => rw [words, List.length_cons, ih]

theorem words_congr {count : Nat} (hcount : 2 * count ≤ 0x100000000)
    (h : ∀ other, Within address (2 * count) other → first other = second other) :
    first.words address count = second.words address count := by
  induction count generalizing address with
  | zero => rfl
  | succ count ih =>
    have hword : first.word address = second.word address :=
      word_congr fun other hother => h other (Nat.lt_of_lt_of_le hother (by omega))
    have hrest : first.words (address + 2) count = second.words (address + 2) count :=
      ih (by omega) fun other hother =>
        h other (within_of_within_offset 2 (by omega) hcount hother)
    rw [words, words, hword, hrest]

/-- Whether memory holds a command whose operand is addressed by extension words behind it, at the
program counter of a processor. -/
structure HoldsOperand (contents : Contents) (cpu : Cpu) (fields : Command) (access : Access)
    (addressing : Addressing) : Prop where
  command : contents.HoldsCommand cpu.pc addressing.place fields
  supported : access.supports addressing.place = true
  words_eq : contents.words (cpu.pc + 4) addressing.place.extensionWords = addressing.words
  rule : addressing.place.Rule access.width (cpu.behind 4 cpu.address) addressing.words
    addressing.located addressing.addresses

theorem HoldsOperand.length_eq {cpu : Cpu} {fields : Command} {access : Access}
    {addressing : Addressing} (h : first.HoldsOperand cpu fields access addressing) :
    addressing.length = 4 + 2 * addressing.place.extensionWords := by
  rw [Addressing.length, ← h.words_eq, length_words]

/-- A command stays where it is as long as none of its bytes changes. -/
theorem HoldsOperand.congr {cpu : Cpu} {fields : Command} {access : Access}
    {addressing : Addressing} (h : first.HoldsOperand cpu fields access addressing)
    (hsame : ∀ other, Within cpu.pc addressing.length other → first other = second other) :
    second.HoldsOperand cpu fields access addressing := by
  have hlength := h.length_eq
  have hwords : addressing.place.extensionWords ≤ 2 := by
    cases addressing.place <;> exact Nat.le_of_ble_eq_true rfl
  refine ⟨h.command.congr fun other hother => ?_, h.supported, ?_, h.rule⟩
  · exact hsame other (Nat.lt_of_lt_of_le hother (by omega))
  · rw [← h.words_eq]
    refine (words_congr (by omega) fun other hother => ?_).symm
    exact hsame other (within_of_within_offset 4 (by omega) (by omega) hother)

end Contents

/-! ## Stored numbers -/

namespace StoreFormat

variable {format : StoreFormat}

theorem image_width (format : StoreFormat) (bits : UInt64) :
    format.width.image bits = BigEndian.encode format.width.bytes bits.toNat := by
  cases format <;> exact List.append_nil _

theorem numberBytes_width (format : StoreFormat) :
    format.width.numberBytes = format.width.bytes := by
  cases format <;> rfl

/-- What is stored fits its format. -/
theorem encode_lt (format : StoreFormat) (x : Double) :
    (format.encode x).toNat < 256 ^ format.width.bytes := by
  cases format with
  | longInteger => exact (UInt32.ofInt x.toLong).toNat_lt
  | single => exact x.narrow.bits.toNat_lt
  | double => exact x.bits.toNat_lt

end StoreFormat

/-! ## Refused words -/

namespace Bus

variable {β : Type} [Bus β] {bus : β} {address : UInt32}

theorem readWords_one_eq_none (h : readWords bus address 1 = none) :
    read16 bus address = none := by
  cases hread : read16 bus address with
  | none => rfl
  | some word => simp [readWords, hread] at h

theorem readWords_two_eq_none (h : readWords bus address 2 = none) :
    read16 bus address = none ∨
      ∃ high, read16 bus address = some high ∧ read16 bus (address + 2) = none := by
  cases hhigh : read16 bus address with
  | none => exact .inl rfl
  | some high =>
    cases hlow : read16 bus (address + 2) with
    | none => exact .inr ⟨high, rfl, rfl⟩
    | some low => simp [readWords, hhigh, hlow] at h

end Bus

namespace Fetch

variable {β : Type} [Bus β] {bus : β} {stream : InstructionStream} {access : Access}
  {place : EffectiveAddress}

/-- An extension word that the bus refuses ends the search for the operand. -/
theorem location_of_refusal
    (hplace : EffectiveAddress.decode (addressField stream.ir) = some place)
    (hsupports : access.supports place = true)
    (hnone : Bus.readWords bus stream.pc place.extensionWords = none) :
    ∃ last, location access bus stream = .error .busError last := by
  rw [location_of_supported hplace hsupports]
  cases place with
  | displaced | indexed =>
    have hword := Bus.readWords_one_eq_none hnone
    exact ⟨_, by rw [locate, bind_apply, word_of_refusal hword]⟩
  | pcDisplaced =>
    have hword := Bus.readWords_one_eq_none hnone
    refine ⟨stream.afterRefusal .word, ?_⟩
    rw [locate, bind_apply]
    show (Fetch.word >>= _ : Fetch β Location) bus stream = _
    rw [bind_apply, word_of_refusal hword]
  | absoluteLong =>
    rcases Bus.readWords_two_eq_none hnone with hhigh | ⟨high, hhigh, hlow⟩
    · exact ⟨_, by rw [locate, bind_apply, word_of_refusal hhigh]⟩
    · have hlow : Bus.read16 bus (stream.afterWord high).pc = none := hlow
      refine ⟨(stream.afterWord high).afterRefusal .word, ?_⟩
      rw [locate, bind_apply, word_of_read hhigh]
      dsimp only
      rw [bind_apply, word_of_refusal hlow]
  -- The other modes have no extension words.
  | _ => cases hnone

theorem ofCommand_store_of_refusal {format : StoreFormat} {n : Fin 8} {last : InstructionStream}
    (h : location ⟨format.width, .write⟩ bus stream = .error .busError last) :
    ofCommand (.moveToMemory format.format n) bus stream = .error .busError last := by
  rw [ofCommand_store, destination, bind_apply, h]

theorem ofCommand_operation_of_refusal {opmode : Opmode} {format : LoadFormat} {n : Fin 8}
    {last : InstructionStream}
    (h : location ⟨format.width, .read⟩ bus stream = .error .busError last) :
    ofCommand (.arithmetic (.memory format.format) n opmode.code) bus stream
      = .error .busError last := by
  rw [ofCommand_operation, operand, bind_apply, h]

end Fetch

/-! ## Machines -/

namespace Machine

open ByteMemory (contents)

variable {β : Type} [Bus β] {machine : Machine β} {opcode : UInt16} {fields : Command}
  {access : Access} {addressing : Addressing} {n : Fin 8}

/-- A command whose extension words the bus refuses ends in a refused access. -/
theorem fault_of_refused_words (h : machine.HasCommand opcode fields)
    (hplace : EffectiveAddress.decode (addressField opcode) = some addressing.place)
    (hsupported : access.supports addressing.place = true)
    (hfetch : ∀ (stream last : InstructionStream),
      Fetch.location access machine.bus stream = .error .busError last →
        Fetch.ofCommand fields machine.bus stream = .error .busError last)
    (hnone : Bus.readWords machine.bus (machine.cpu.pc + 4) addressing.place.extensionWords = none) :
    machine.step.fault = some .busError := by
  obtain ⟨stream, hpc, hir, hofCommand⟩ := fetch_of_hasCommand h
  rw [← hir] at hplace
  rw [← hpc] at hnone
  obtain ⟨last, hlocation⟩ := Fetch.location_of_refusal hplace hsupported hnone
  rw [step_of_fetch_error (hofCommand.trans (hfetch stream last hlocation))]

/-- Of the formats that are stored, a data register takes those of 32 bits. -/
theorem HasStore.width_eq_long {format : StoreFormat} {data : Fin 8}
    (h : machine.HasStore opcode format n addressing)
    (hlocated : addressing.located = .dataRegister data) : format.width = .long := by
  obtain ⟨place, words, located, addresses⟩ := addressing
  obtain rfl : located = .dataRegister data := hlocated
  have hsupported := h.addressed.supported
  cases h.addressed.rule with
  | dataRegister =>
    cases format with
    | longInteger | single => rfl
    | double => cases hsupported

/-- What a store has written to a data register is there for an operation. -/
theorem operand_of_stored_register {second : Addressing} {data : Fin 8} {bits operand : UInt64}
    (h : machine.Stores opcode .long addressing bits) (hbits : bits.toNat < 2 ^ 32)
    (hfirst : addressing.located = .dataRegister data)
    (hsecond : second.located = .dataRegister data)
    (hoperand : machine.step.machine.operand .long second = some operand) : operand = bits := by
  have hdata : (machine.step.machine.cpu.data.get data).toNat = bits.toNat := by
    have hput : (machine.cpu.data.put data bits.toUInt32).get data = bits.toUInt32 :=
      Bank.get_put_self _ _ _
    rw [h.cpu_eq, hfirst]
    exact (congrArg UInt32.toNat hput).trans (by rw [bits.toNat_toUInt32, Nat.mod_eq_of_lt hbits])
  rw [Machine.operand, hsecond, Located.operand, hdata] at hoperand
  obtain rfl := Option.some.inj hoperand
  show UInt64.ofNat (bits.toNat % 2 ^ 32) = bits
  rw [Nat.mod_eq_of_lt hbits, UInt64.ofNat_toNat]

variable [ByteMemory β]

theorem readWords_eq {bus : β} {address : UInt32} {count : Nat} {words : List UInt16}
    (h : Bus.readWords bus address count = some words) :
    words = (contents bus).words address count := by
  induction count generalizing address words with
  | zero => exact Bus.readWords_zero h
  | succ count ih =>
    obtain ⟨first, rest, rfl, hfirst, hrest⟩ := Bus.readWords_succ h
    rw [Contents.words, ← ByteMemory.read16_eq hfirst, ← ih hrest]

/-- The command that memory holds at the program counter is there for the step. -/
theorem hasCommand_of_holdsOperand
    (h : (contents machine.bus).HoldsOperand machine.cpu fields access addressing)
    (hfetch : ∀ (stream last : InstructionStream),
      Fetch.location access machine.bus stream = .error .busError last →
        Fetch.ofCommand fields machine.bus stream = .error .busError last)
    (hfault : machine.step.fault ≠ some .busError) :
    ∃ opcode, machine.HasCommand opcode fields ∧
      machine.HasAddressing opcode access addressing := by
  obtain ⟨opcode, second, hopcode, hsecond, hgroup, hoperation, hplace, hfields⟩ :=
    words_of_holdsCommand h.command hfault
  have hcommand : machine.HasCommand opcode fields :=
    ⟨hopcode, (OpcodeGroup.decode_eq_general_iff opcode).mp hgroup,
      (GeneralOp.decode_eq_command_iff opcode).mp hoperation, by rw [hsecond]; exact hfields⟩
  refine ⟨opcode, hcommand, hplace, h.supported, ?_, h.rule⟩
  cases hwords : Bus.readWords machine.bus (machine.cpu.pc + 4) addressing.place.extensionWords with
  | none => exact absurd (fault_of_refused_words hcommand hplace h.supported hfetch hwords) hfault
  | some words => rw [readWords_eq hwords, h.words_eq]

theorem hasStore_of_holdsOperand {format : StoreFormat}
    (h : (contents machine.bus).HoldsOperand machine.cpu (.moveToMemory format.format n)
      ⟨format.width, .write⟩ addressing)
    (hfault : machine.step.fault ≠ some .busError) :
    ∃ opcode, machine.HasStore opcode format n addressing := by
  obtain ⟨opcode, hcommand, haddressed⟩ :=
    hasCommand_of_holdsOperand h (fun _ _ => Fetch.ofCommand_store_of_refusal) hfault
  exact ⟨opcode, hcommand, haddressed⟩

theorem hasOperation_of_holdsOperand {opmode : Opmode} {format : LoadFormat}
    (h : (contents machine.bus).HoldsOperand machine.cpu
      (.arithmetic (.memory format.format) n opmode.code) ⟨format.width, .read⟩ addressing)
    (hfault : machine.step.fault ≠ some .busError) :
    ∃ opcode, machine.HasOperation opcode opmode format n addressing := by
  obtain ⟨opcode, hcommand, haddressed⟩ :=
    hasCommand_of_holdsOperand h (fun _ _ => Fetch.ofCommand_operation_of_refusal) hfault
  exact ⟨opcode, hcommand, haddressed⟩

/-! ### Stored operands -/

/-- A store to memory keeps every byte outside of its operand. -/
theorem contents_of_stores {format : StoreFormat} {address : UInt32} {bits : UInt64}
    (h : machine.Stores opcode format.width addressing bits)
    (hlocated : addressing.located = .memory address) {other : UInt32}
    (hother : ¬ Within address format.width.bytes other) :
    contents machine.step.machine.bus other = contents machine.bus other := by
  have hstore := h.store_eq
  rw [hlocated] at hstore
  rw [ByteMemory.writeLongs_eq format.four_le_bytes hstore]
  apply Contents.overwrite_of_not_within
  rwa [format.image_width, BigEndian.length_encode]

/-- What a store has written to memory is there for an operation. -/
theorem operand_of_stored_memory {format : StoreFormat} {second : Addressing} {address : UInt32}
    {x : Double} {operand : UInt64}
    (h : machine.Stores opcode format.width addressing (format.encode x))
    (hfirst : addressing.located = .memory address) (hsecond : second.located = .memory address)
    (hoperand : machine.step.machine.operand format.width second = some operand) :
    operand = format.encode x := by
  have hstore := h.store_eq
  rw [hfirst] at hstore
  rw [Machine.operand, hsecond] at hoperand
  have hlength : (BigEndian.encode format.width.bytes (format.encode x).toNat).length
      ≤ 0x100000000 := by
    rw [BigEndian.length_encode]
    cases format <;> exact Nat.le_of_ble_eq_true rfl
  have hself := (contents machine.bus).bytes_overwrite_self address hlength
  rw [BigEndian.length_encode] at hself
  apply UInt64.toNat_inj.mp
  rw [ByteMemory.readOperand_eq hoperand, ByteMemory.writeLongs_eq format.four_le_bytes hstore,
    format.image_width, format.numberBytes_width, hself, BigEndian.decode_encode,
    Nat.mod_eq_of_lt (format.encode_lt x)]

/-- An operation reads the bits that a store has written to the same location. -/
theorem operand_of_hasStore {format : StoreFormat} {second : Addressing} {operand : UInt64}
    (hstore : machine.HasStore opcode format n addressing)
    (hfault : machine.step.fault ≠ some .busError)
    (hlocated : second.located = addressing.located)
    (hoperand : machine.step.machine.operand format.width second = some operand) :
    operand = format.encode (machine.cpu.fp.get n) := by
  have hstores := stores_of_hasStore hstore hfault
  cases hfirst : addressing.located with
  | memory address =>
    exact operand_of_stored_memory hstores hfirst (hlocated.trans hfirst) hoperand
  | dataRegister data =>
    -- Nothing wider than a data register may be stored there.
    have hwidth := hstore.width_eq_long hfirst
    have hbits := format.encode_lt (machine.cpu.fp.get n)
    rw [hwidth] at hstores hoperand hbits
    exact operand_of_stored_register hstores hbits hfirst (hlocated.trans hfirst) hoperand
  | immediate => exact absurd hfirst (hstore.addressed.rule.located_ne_immediate
      hstore.addressed.supported rfl)

end Machine

end M68Fpu
