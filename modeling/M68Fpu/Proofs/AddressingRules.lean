import Mathlib.Algebra.Order.Ring.Nat
import M68Fpu.Machine.Step
import M68Fpu.Proofs.Execution
import M68Fpu.Proofs.InstructionStream

/-!
# Addressing modes by their rules

Where the operand of each addressing mode is, said by one rule for each mode: an address is a sum of
integers modulo `2 ^ 32`, and extension words are fields and numbers in two's complement
(`EffectiveAddress.Rule`). The rules know nothing of how an operand is found in two stages, from the
instruction stream and then from the registers.

Whenever an access may use its addressing mode and the bus has the extension words, the first stage
succeeds with a location that follows the rule (`Fetch.location_of_words`); the second always does
(`Exec.resolve_of_location`).
-/

namespace M68Fpu

/-! ## Integers modulo `2 ^ 32` -/

/-- The number that the low `bits` bits of `value` are in two's complement. -/
def signed (bits value : Nat) : Int := (value : Int).bmod (2 ^ bits)

theorem signed_mod (bits value : Nat) : signed bits (value % 2 ^ bits) = signed bits value := by
  unfold signed
  rw [Int.natCast_emod, Int.emod_bmod]

theorem ofInt_natCast (value : Nat) : UInt32.ofInt value = UInt32.ofNat value := by
  apply UInt32.toNat_inj.mp
  simp only [UInt32.ofInt, UInt32.toNat_ofNat']
  omega

theorem ofInt_toNat (value : UInt32) : UInt32.ofInt value.toNat = value := by
  rw [ofInt_natCast, UInt32.ofNat_toNat]

theorem ofInt_sub_natCast (value : Int) (count : Nat) :
    UInt32.ofInt (value - count) = UInt32.ofInt value - UInt32.ofNat count := by
  rw [Int.sub_eq_add_neg, UInt32.ofInt_add, UInt32.ofInt_neg, ofInt_natCast,
    UInt32.sub_eq_add_neg]

theorem ofBitVec_ofInt (value : Int) :
    UInt32.ofBitVec (BitVec.ofInt 32 value) = UInt32.ofInt value := by
  apply UInt32.toNat_inj.mp
  show (BitVec.ofInt 32 value).toNat = _
  rw [BitVec.toNat_ofInt]
  simp only [UInt32.ofInt, UInt32.toNat_ofNat']
  omega

theorem signExtendByte_eq (byte : UInt8) :
    signExtendByte byte = UInt32.ofInt (signed 8 byte.toNat) := by
  have h : byte.toBitVec.toInt = signed 8 byte.toNat := BitVec.toInt_eq_toNat_bmod _
  rw [← h]
  exact ofBitVec_ofInt byte.toBitVec.toInt

theorem signExtendWord_eq (word : UInt16) :
    signExtendWord word = UInt32.ofInt (signed 16 word.toNat) := by
  have h : word.toBitVec.toInt = signed 16 word.toNat := BitVec.toInt_eq_toNat_bmod _
  rw [← h]
  exact ofBitVec_ofInt word.toBitVec.toInt

/-- A shift by the scale of an index is a multiplication. -/
theorem shiftLeft_scale (value : UInt32) (scale : Fin 4) :
    value <<< UInt32.ofNat scale = value * UInt32.ofInt (2 ^ scale.val : Nat) := by
  have hscale : (UInt32.ofNat scale).toNat % 32 = scale.val := by
    rw [UInt32.toNat_ofNat']
    omega
  apply UInt32.toNat_inj.mp
  rw [ofInt_natCast, UInt32.toNat_shiftLeft, hscale, UInt32.toNat_mul, UInt32.toNat_ofNat',
    Nat.shiftLeft_eq, Nat.mul_mod_mod]

/-! ## Fields -/

theorem bitField_eq (word : UInt16) (low width : Nat) :
    bitField word low width = word.toNat / 2 ^ low % 2 ^ width := by
  rw [bitField, Nat.shiftRight_eq_div_pow, Nat.one_shiftLeft]

theorem bitField_one_eq_one_iff (word : UInt16) (bit : Nat) :
    bitField word bit 1 = 1 ↔ word.toNat.testBit bit = true := by
  rw [bitField_eq, Nat.pow_one, Nat.testBit_eq_decide_div_mod_eq, decide_eq_true_iff]

/-! ## Rules -/

/-- How far an access moves the address register `n`: by the bytes of the operand, but the stack
pointer A7 by two for a byte. -/
def Width.stride : Width → (n : Fin 8) → Nat
  | byte, 7 => 2
  | byte, _ => 1
  | word, _ => 2
  | long, _ => 4
  | quad, _ => 8
  | extended, _ => 12

theorem Width.step_eq (width : Width) (n : Fin 8) :
    width.step n = UInt32.ofNat (width.stride n) := by
  cases width <;> revert n <;> decide

/-- The index register of an extension word. Bit 15 says whether it is an address register, bits 12
to 14 which one it is, and bit 11 whether it counts whole or as its signed low word. -/
def indexCount (cpu : Cpu) (extension : UInt16) : Int :=
  let bank := if extension.toNat.testBit 15 then cpu.address else cpu.data
  let register := bank.get ⟨extension.toNat / 2 ^ 12 % 8, Nat.mod_lt _ (Nat.succ_pos 7)⟩
  if extension.toNat.testBit 11 then register.toNat else signed 16 register.toNat

/-- What an index adds to the base address: bits 9 and 10 of the extension word are the binary
logarithm of the scale, its low byte a signed displacement. -/
def indexSum (cpu : Cpu) (extension : UInt16) : Int :=
  indexCount cpu extension * (2 ^ (extension.toNat / 2 ^ 9 % 4) : Nat) + signed 8 extension.toNat

/-- Where an operand is, once its address is known. -/
inductive Located where
  | dataRegister (n : Fin 8)
  | memory (address : UInt32)
  | immediate
  deriving DecidableEq, Repr

namespace EffectiveAddress

/-- The extension words that tell where an operand is. -/
def extensionWords : EffectiveAddress → Nat
  | displaced _ | indexed _ | pcDisplaced => 1
  | absoluteLong => 2
  | _ => 0

/-- The rules of the addressing modes: where the operand is, and what the address registers are
afterwards, given the processor with its program counter on the extension words, and these words.
An index is in the brief format, of which bit 8 is clear. -/
inductive Rule (width : Width) (cpu : Cpu) :
    EffectiveAddress → (words : List UInt16) → Located → Bank UInt32 → Prop
  | dataRegister (n : Fin 8) :
      Rule width cpu (.dataRegister n) [] (.dataRegister n) cpu.address
  | indirect (n : Fin 8) :
      Rule width cpu (.indirect n) [] (.memory (cpu.address.get n)) cpu.address
  | postIncrement (n : Fin 8) {next : UInt32}
      (hnext : next = UInt32.ofInt ((cpu.address.get n).toNat + width.stride n)) :
      Rule width cpu (.postIncrement n) [] (.memory (cpu.address.get n)) (cpu.address.put n next)
  | preDecrement (n : Fin 8) {address : UInt32}
      (haddress : address = UInt32.ofInt ((cpu.address.get n).toNat - width.stride n)) :
      Rule width cpu (.preDecrement n) [] (.memory address) (cpu.address.put n address)
  | displaced (n : Fin 8) (word : UInt16) {address : UInt32}
      (haddress : address = UInt32.ofInt ((cpu.address.get n).toNat + signed 16 word.toNat)) :
      Rule width cpu (.displaced n) [word] (.memory address) cpu.address
  | indexed (n : Fin 8) (extension : UInt16) (hbrief : extension.toNat.testBit 8 = false)
      {address : UInt32}
      (haddress : address
        = UInt32.ofInt ((cpu.address.get n).toNat + indexSum cpu extension)) :
      Rule width cpu (.indexed n) [extension] (.memory address) cpu.address
  | pcDisplaced (word : UInt16) {address : UInt32}
      (haddress : address = UInt32.ofInt (cpu.pc.toNat + signed 16 word.toNat)) :
      Rule width cpu .pcDisplaced [word] (.memory address) cpu.address
  | absoluteLong (high low : UInt16) {address : UInt32}
      (haddress : address = UInt32.ofInt (high.toNat * 2 ^ 16 + low.toNat)) :
      Rule width cpu .absoluteLong [high, low] (.memory address) cpu.address
  | immediate : Rule width cpu .immediate [] .immediate cpu.address

/-- Whether the extension words of a mode are in a format that is known. -/
def HasKnownFormat : EffectiveAddress → (words : List UInt16) → Prop
  | indexed _, [extension] => extension.toNat.testBit 8 = false
  | _, _ => True

end EffectiveAddress

namespace Index

/-- The index of an extension word, field by field. -/
def ofFields (extension : UInt16) : Index where
  isAddress := extension.toNat.testBit 15
  register := ⟨extension.toNat / 2 ^ 12 % 8, Nat.mod_lt _ (Nat.succ_pos 7)⟩
  isLong := extension.toNat.testBit 11
  scale := ⟨extension.toNat / 2 ^ 9 % 4, Nat.mod_lt _ (Nat.succ_pos 3)⟩
  displacement := UInt32.ofInt (signed 8 extension.toNat)

/-- Only bit 8 tells whether an index is known. -/
theorem decode_of_brief {extension : UInt16} (hbrief : extension.toNat.testBit 8 = false) :
    decode extension = some (ofFields extension) := by
  have hformat : bitField extension 8 1 ≠ 1 := by
    rw [Ne, bitField_one_eq_one_iff, hbrief]
    exact Bool.false_ne_true
  have hflag (bit : Nat) : decide (bitField extension bit 1 = 1) = extension.toNat.testBit bit := by
    rw [Bool.decide_congr (bitField_one_eq_one_iff extension bit), Bool.decide_eq_true]
  have hregister : octalField extension 12 = (ofFields extension).register :=
    Fin.ext (bitField_eq extension 12 3)
  have hscale : (⟨bitField extension 9 2, bitField_lt extension 9 2⟩ : Fin 4)
      = (ofFields extension).scale := Fin.ext (bitField_eq extension 9 2)
  have hdisplacement : signExtendByte extension.toUInt8
      = UInt32.ofInt (signed 8 extension.toNat) := by
    rw [signExtendByte_eq, extension.toNat_toUInt8, signed_mod]
  rw [decode, if_neg hformat, hflag, hflag, hregister, hscale, hdisplacement]
  rfl

/-- What an index counts, before it is scaled. -/
def count (index : Index) (cpu : Cpu) : UInt32 :=
  let register :=
    if index.isAddress then cpu.address.get index.register else cpu.data.get index.register
  if index.isLong then register else signExtendWord register.toUInt16

theorem offset_eq (index : Index) (cpu : Cpu) :
    index.offset cpu = (index.count cpu <<< UInt32.ofNat index.scale) + index.displacement := rfl

theorem count_ofFields (cpu : Cpu) (extension : UInt16) :
    (ofFields extension).count cpu = UInt32.ofInt (indexCount cpu extension) := by
  have hword (value : UInt32) :
      signExtendWord value.toUInt16 = UInt32.ofInt (signed 16 value.toNat) := by
    rw [signExtendWord_eq, value.toNat_toUInt16, signed_mod]
  unfold count ofFields indexCount
  cases extension.toNat.testBit 11 with
  | true =>
    simp only [if_true, ofInt_toNat]
    split <;> rfl
  | false =>
    simp only [Bool.false_eq_true, if_false, hword]
    split <;> rfl

/-- An index adds what the rules say. -/
theorem offset_ofFields (cpu : Cpu) (extension : UInt16) :
    (ofFields extension).offset cpu = UInt32.ofInt (indexSum cpu extension) := by
  rw [offset_eq, count_ofFields, shiftLeft_scale, indexSum, UInt32.ofInt_add, UInt32.ofInt_mul]
  rfl

end Index

/-! ## From the instruction stream -/

namespace Bus

variable {β : Type} [Bus β] {bus : β} {address : UInt32} {words : List UInt16}

/-- The words from an address on, unless the bus refuses one of them. -/
def readWords (bus : β) (address : UInt32) : (count : Nat) → Option (List UInt16)
  | 0 => some []
  | count + 1 => do
    let first ← read16 bus address
    let rest ← readWords bus (address + 2) count
    return first :: rest

theorem readWords_zero (h : readWords bus address 0 = some words) : words = [] :=
  (Option.some.inj h).symm

theorem readWords_succ {count : Nat} (h : readWords bus address (count + 1) = some words) :
    ∃ first rest, words = first :: rest ∧ read16 bus address = some first ∧
      readWords bus (address + 2) count = some rest := by
  obtain ⟨first, hfirst, h⟩ := Option.bind_eq_some_iff.mp h
  obtain ⟨rest, hrest, h⟩ := Option.bind_eq_some_iff.mp h
  cases h
  exact ⟨first, rest, rfl, hfirst, hrest⟩

theorem readWords_one (h : readWords bus address 1 = some words) :
    ∃ word, words = [word] ∧ read16 bus address = some word := by
  obtain ⟨word, rest, rfl, hread, hrest⟩ := readWords_succ h
  obtain rfl := readWords_zero hrest
  exact ⟨word, rfl, hread⟩

theorem readWords_two (h : readWords bus address 2 = some words) :
    ∃ high low, words = [high, low] ∧ read16 bus address = some high ∧
      read16 bus (address + 2) = some low := by
  obtain ⟨high, rest, rfl, hhigh, hrest⟩ := readWords_succ h
  obtain ⟨low, rfl, hlow⟩ := readWords_one hrest
  exact ⟨high, low, rfl, hhigh, hlow⟩

end Bus

namespace Fetch

namespace Location

/-- Where a location is for a processor. -/
def located (width : Width) (cpu : Cpu) : Location → Located
  | .dataRegister n => .dataRegister n
  | .memory place => .memory (place.address width cpu)
  | .immediate => .immediate

/-- The address registers after a location has been used. -/
def moved (width : Width) (cpu : Cpu) : Location → Bank UInt32
  | .dataRegister _ | .immediate => cpu.address
  | .memory place => (place.moved width cpu).address

/-- A location follows a rule for every processor whose instruction stream it comes from. -/
def Follows (location : Location) (width : Width) (pc : UInt32) (place : EffectiveAddress)
    (words : List UInt16) : Prop :=
  ∀ cpu : Cpu, cpu.pc = pc →
    place.Rule width cpu words (location.located width cpu) (location.moved width cpu)

end Location

variable {β : Type} [Bus β] {bus : β} {stream : InstructionStream} {access : Access}
  {place : EffectiveAddress} {words : List UInt16}

/-- A place that an access may use is located by its extension words, and by nothing else. -/
theorem locate_of_words (hsupports : access.supports place = true)
    (hwords : Bus.readWords bus stream.pc place.extensionWords = some words)
    (hformat : place.HasKnownFormat words) :
    ∃ found last, locate access place bus stream = .ok found last ∧
      last.pc = stream.pc + UInt32.ofNat (2 * words.length) ∧ last.ir = stream.ir ∧
      found.Follows access.width stream.pc place words := by
  have hstay : stream.pc = stream.pc + 0 := (UInt32.add_zero _).symm
  cases place with
  | addressRegister | pcIndexed | absoluteShort => exact absurd hsupports Bool.false_ne_true
  | dataRegister n =>
    obtain rfl := Bus.readWords_zero hwords
    exact ⟨.dataRegister n, stream, rfl, hstay, rfl, fun cpu _ => .dataRegister n⟩
  | immediate =>
    obtain rfl := Bus.readWords_zero hwords
    exact ⟨.immediate, stream, rfl, hstay, rfl, fun cpu _ => .immediate⟩
  | indirect n =>
    obtain rfl := Bus.readWords_zero hwords
    exact ⟨.memory (.indirect n), stream, rfl, hstay, rfl, fun cpu _ => .indirect n⟩
  | postIncrement n =>
    obtain rfl := Bus.readWords_zero hwords
    refine ⟨.memory (.postIncrement n), stream, rfl, hstay, rfl, fun cpu _ => .postIncrement n ?_⟩
    rw [UInt32.ofInt_add, ofInt_toNat, ofInt_natCast, Width.step_eq]
  | preDecrement n =>
    obtain rfl := Bus.readWords_zero hwords
    refine ⟨.memory (.preDecrement n), stream, rfl, hstay, rfl, fun cpu _ => .preDecrement n ?_⟩
    rw [ofInt_sub_natCast, ofInt_toNat, ← Width.step_eq]
    rfl
  | displaced n =>
    obtain ⟨word, rfl, hword⟩ := Bus.readWords_one hwords
    refine ⟨.memory (.displaced n (signExtendWord word)), stream.afterWord word, ?_, rfl, rfl,
      fun cpu _ => .displaced n word ?_⟩
    · rw [locate, bind_apply, word_of_read hword]
      rfl
    · rw [UInt32.ofInt_add, ofInt_toNat, ← signExtendWord_eq]
      rfl
  | indexed n =>
    obtain ⟨extension, rfl, hextension⟩ := Bus.readWords_one hwords
    have hindex := Index.decode_of_brief hformat
    refine ⟨.memory (.indexed n (.ofFields extension)), stream.afterWord extension, ?_, rfl, rfl,
      fun cpu _ => .indexed n extension hformat ?_⟩
    · rw [locate, bind_apply, word_of_read hextension]
      dsimp only
      rw [bind_apply, require_of_some hindex]
      rfl
    · rw [UInt32.ofInt_add, ofInt_toNat, ← Index.offset_ofFields]
      rfl
  | pcDisplaced =>
    obtain ⟨word, rfl, hword⟩ := Bus.readWords_one hwords
    refine ⟨.memory (.absolute (stream.pc + signExtendWord word)), stream.afterWord word, ?_, rfl,
      rfl, fun cpu hpc => .pcDisplaced word ?_⟩
    · rw [locate, bind_apply]
      show (Fetch.word >>= _ : Fetch β Location) bus stream = _
      rw [bind_apply, word_of_read hword]
      rfl
    · rw [UInt32.ofInt_add, ofInt_toNat, ← signExtendWord_eq, hpc]
      rfl
  | absoluteLong =>
    obtain ⟨high, low, rfl, hhigh, hlow⟩ := Bus.readWords_two hwords
    refine ⟨.memory (.absolute (UInt32.ofNat (high.toNat * 0x10000 + low.toNat))),
      (stream.afterWord high).afterWord low, ?_, ?_, rfl, fun cpu _ => .absoluteLong high low ?_⟩
    · have hlow : Bus.read16 bus (stream.afterWord high).pc = some low := hlow
      rw [locate, bind_apply, word_of_read hhigh]
      dsimp only
      rw [bind_apply, word_of_read hlow]
      rfl
    · exact UInt32.add_assoc _ _ _
    · exact (ofInt_natCast (high.toNat * 2 ^ 16 + low.toNat)).symm

/-- So does the address field of the opcode. -/
theorem location_of_words
    (hplace : EffectiveAddress.decode (addressField stream.ir) = some place)
    (hsupports : access.supports place = true)
    (hwords : Bus.readWords bus stream.pc place.extensionWords = some words)
    (hformat : place.HasKnownFormat words) :
    ∃ found last, location access bus stream = .ok found last ∧
      last.pc = stream.pc + UInt32.ofNat (2 * words.length) ∧ last.ir = stream.ir ∧
      found.Follows access.width stream.pc place words := by
  rw [location_of_supported hplace hsupports]
  exact locate_of_words hsupports hwords hformat

end Fetch

/-! ## From the registers -/

namespace Exec

variable {β α γ : Type}

/-- Reads from the instruction stream of a machine, with the instruction at `start`. -/
def fetching [Bus β] (start : UInt32) (fetch : Fetch β α) : Exec β α := fun machine =>
  match fetch machine.bus (machine.stream start) with
  | .ok value stream => .ok value (machine.withStream stream)
  | .error fault stream => .error fault (machine.withStream stream)

/-- This is how the instructions of a machine are fetched and executed. -/
theorem perform_eq [Bus β] (machine : Machine β) (start : UInt32) (fetch : Fetch β Instruction) :
    machine.perform start fetch = (fetching start fetch >>= execute).outcome machine := by
  show _ = outcome (EStateM.bind (fetching start fetch) execute) machine
  unfold Machine.perform outcome EStateM.bind fetching
  cases fetch machine.bus (machine.stream start) <;> rfl

/-- Resolves a location that has been read from the instruction stream. -/
def locate (width : Width) : Fetch.Location → Exec β Located
  | .dataRegister n => pure (.dataRegister n)
  | .memory place => return .memory (← address width place)
  | .immediate => pure .immediate

/-- Resolves the address field of the opcode. -/
def resolve [Bus β] (start : UInt32) (access : Access) : Exec β Located := do
  locate access.width (← fetching start (Fetch.location access))

theorem locate_eq (width : Width) (location : Fetch.Location) (machine : Machine β) :
    locate width location machine = .ok (location.located width machine.cpu)
      (machine.mapCpu fun cpu => { cpu with address := location.moved width cpu }) := by
  cases location with
  | dataRegister | immediate => rfl
  | memory place =>
    rw [locate, address_bind]
    show EStateM.Result.ok _ { machine with cpu := place.moved width machine.cpu } = _
    rw [place.moved_eq]
    rfl

/-- The instruction stream does not move any register that a location depends on. -/
theorem located_withStream (location : Fetch.Location) (width : Width) (machine : Machine β)
    (stream : InstructionStream) :
    location.located width (machine.withStream stream).cpu = location.located width machine.cpu ∧
      location.moved width (machine.withStream stream).cpu = location.moved width machine.cpu := by
  cases location with
  | dataRegister | immediate => exact ⟨rfl, rfl⟩
  | memory place => cases place <;> exact ⟨rfl, rfl⟩

end Exec

theorem Machine.cpu_withStream {β : Type} (machine : Machine β) {stream : InstructionStream}
    (hir : stream.ir = machine.cpu.ir) :
    (machine.withStream stream).cpu = { machine.cpu with pc := stream.pc } := by
  show { machine.cpu with pc := stream.pc, ir := stream.ir } = _
  rw [hir]

namespace Exec

variable {β α : Type} [Bus β] {machine : Machine β} {start : UInt32}

theorem fetching_of_ok {fetch : Fetch β α} {value : α} {last : InstructionStream}
    (h : fetch machine.bus (machine.stream start) = .ok value last) :
    fetching start fetch machine = .ok value (machine.withStream last) := by
  unfold fetching
  rw [h]

/-- A location is resolved by the registers. -/
theorem resolve_of_location {access : Access} {location : Fetch.Location}
    {last : InstructionStream}
    (h : Fetch.location access machine.bus (machine.stream start) = .ok location last)
    (hir : last.ir = machine.cpu.ir) :
    ∃ after, resolve start access machine = .ok (location.located access.width machine.cpu) after ∧
      after.bus = machine.bus ∧
      after.cpu = { machine.cpu with
        pc := last.pc
        address := location.moved access.width machine.cpu } := by
  obtain ⟨hlocated, hmoved⟩ := located_withStream location access.width machine last
  have hresolve : resolve start access machine =
      .ok (location.located access.width (machine.withStream last).cpu)
        ((machine.withStream last).mapCpu fun cpu =>
          { cpu with address := location.moved access.width cpu }) := by
    unfold resolve
    rw [bind_of_ok (fetching_of_ok h), locate_eq]
  rw [hlocated] at hresolve
  refine ⟨_, hresolve, rfl, ?_⟩
  show { (machine.withStream last).cpu with
    address := location.moved access.width (machine.withStream last).cpu } = _
  rw [hmoved, machine.cpu_withStream hir]

end Exec

end M68Fpu
