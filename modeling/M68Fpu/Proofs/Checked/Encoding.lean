import M68Fpu.Encoding.Command
import M68Fpu.Encoding.EffectiveAddress

/-!
# Encodings as plain numbers

The decoders of instruction words yield register numbers that are below eight, and formats and modes
that exist, by their types. Here the same fields are cut out of the words by shifts and masks, as
plain bytes that could hold anything. A distinction of cases that leaves some values out panics on
them, and which locations an access may use is a table of patterns that are tried in order.

Neither decoder ever panics, and both yield what the typed ones do (`Place.decode_eq`,
`Fields.decode_eq`), so that their register numbers are below eight after all. The table agrees with
`Access.supports` (`supports_of`).
-/

namespace M68Fpu

namespace Checked

/-- Why a checked operation has no result. -/
inductive Panic where
  /-- A case that a distinction of cases leaves out. -/
  | missingCase
  /-- An index behind the end of an array, such as a register number that no bank has. -/
  | outOfBounds
  /-- A difference or a shift that its type has no room for. -/
  | overflow
  deriving DecidableEq, Repr

/-! ## Fields -/

/-- The bits of a word from bit `low` up, as far as the mask reaches. -/
def masked (word low mask : UInt16) : UInt16 := (word >>> low) &&& mask

section

variable {low mask : UInt16} {width : Nat}

theorem toNat_masked (word : UInt16) (hlow : low.toNat < 16)
    (hmask : mask.toNat = 1 <<< width - 1) :
    (masked word low mask).toNat = bitField word low.toNat width := by
  rw [masked, UInt16.toNat_and, UInt16.toNat_shiftRight, Nat.mod_eq_of_lt hlow, hmask, bitField,
    Nat.one_shiftLeft, Nat.and_two_pow_sub_one_eq_mod]

theorem masked_eq (word : UInt16) (hlow : low.toNat < 16) (hmask : mask.toNat = 1 <<< width - 1) :
    masked word low mask = UInt16.ofNat (bitField word low.toNat width) := by
  rw [← toNat_masked word hlow hmask, UInt16.ofNat_toNat]

theorem toUInt8_masked (word : UInt16) (hlow : low.toNat < 16)
    (hmask : mask.toNat = 1 <<< width - 1) :
    (masked word low mask).toUInt8 = byteField word low.toNat width := by
  apply UInt8.toNat_inj.mp
  rw [UInt16.toNat_toUInt8, toNat_masked word hlow hmask, byteField, UInt8.toNat_ofNat']

end

/-! ## Places -/

/-- The operand locations of the addressing modes, with register numbers that may be anything. -/
inductive Place where
  | dataRegister (number : UInt8)
  | addressRegister (number : UInt8)
  | indirect (number : UInt8)
  | postIncrement (number : UInt8)
  | preDecrement (number : UInt8)
  | displaced (number : UInt8)
  | indexed (number : UInt8)
  | pcDisplaced
  | pcIndexed
  | absoluteShort
  | absoluteLong
  | immediate
  deriving DecidableEq, Repr

namespace Place

/-- The location that the low six bits of `field` name. -/
def decode (field : UInt8) : Except Panic (Option Place) :=
  let number := field &&& 7
  match (field >>> 3) &&& 7 with
  | 0 => .ok (some (dataRegister number))
  | 1 => .ok (some (addressRegister number))
  | 2 => .ok (some (indirect number))
  | 3 => .ok (some (postIncrement number))
  | 4 => .ok (some (preDecrement number))
  | 5 => .ok (some (displaced number))
  | 6 => .ok (some (indexed number))
  | 7 =>
    match number with
    | 0 => .ok (some absoluteShort)
    | 1 => .ok (some absoluteLong)
    | 2 => .ok (some pcDisplaced)
    | 3 => .ok (some pcIndexed)
    | 4 => .ok (some immediate)
    | _ => .ok none
  | _ => .error .missingCase

/-- A typed location, with plain register numbers. -/
def of : EffectiveAddress → Place
  | .dataRegister n => dataRegister (UInt8.ofNat n)
  | .addressRegister n => addressRegister (UInt8.ofNat n)
  | .indirect n => indirect (UInt8.ofNat n)
  | .postIncrement n => postIncrement (UInt8.ofNat n)
  | .preDecrement n => preDecrement (UInt8.ofNat n)
  | .displaced n => displaced (UInt8.ofNat n)
  | .indexed n => indexed (UInt8.ofNat n)
  | .pcDisplaced => pcDisplaced
  | .pcIndexed => pcIndexed
  | .absoluteShort => absoluteShort
  | .absoluteLong => absoluteLong
  | .immediate => immediate

theorem number_eq (field : UInt8) :
    field &&& 7 = UInt8.ofNat (EffectiveAddress.registerOf field) := by
  apply UInt8.toNat_inj.mp
  have hmask : (7 : UInt8).toNat = 1 <<< 3 - 1 := rfl
  have hmod : (EffectiveAddress.registerOf field).val = field.toNat % 8 := rfl
  rw [UInt8.toNat_and, hmask, Nat.one_shiftLeft, Nat.and_two_pow_sub_one_eq_mod, UInt8.toNat_ofNat',
    hmod]
  omega

theorem mode_eq (field : UInt8) :
    (field >>> 3) &&& 7 = UInt8.ofNat (EffectiveAddress.modeOf field) := by
  apply UInt8.toNat_inj.mp
  have hmask : (7 : UInt8).toNat = 1 <<< 3 - 1 := rfl
  have hshift : (field >>> 3).toNat = field.toNat / 8 := Nat.shiftRight_eq_div_pow field.toNat 3
  have hmod : (EffectiveAddress.modeOf field).val = field.toNat / 8 % 8 := rfl
  rw [UInt8.toNat_and, hshift, hmask, Nat.one_shiftLeft, Nat.and_two_pow_sub_one_eq_mod,
    UInt8.toNat_ofNat', hmod]
  omega

theorem decode_eq (field : UInt8) :
    decode field = .ok ((EffectiveAddress.decode field).map of) := by
  unfold decode EffectiveAddress.decode
  rw [mode_eq, number_eq]
  generalize EffectiveAddress.registerOf field = n
  generalize EffectiveAddress.modeOf field = mode
  match mode with
  | 0 | 1 | 2 | 3 | 4 | 5 | 6 => rfl
  | 7 =>
    match n with
    | 0 | 1 | 2 | 3 | 4 | 5 | 6 | 7 => rfl

end Place

/-- Whether an access may use a location: the first pattern that fits decides. -/
def supports (access : Access) (place : Place) : Bool :=
  match access.width, access.direction, place with
  -- Extended slots are popped and pushed and nothing else.
  | .extended, .read, .postIncrement _ => true
  | .extended, .write, .preDecrement _ => true
  | .extended, _, _ => false
  | .quad, _, .dataRegister _ | .quad, _, .indexed _ => false
  | _, _, .dataRegister _ | _, _, .indexed _ => true
  | _, _, .indirect _ | _, _, .postIncrement _ | _, _, .preDecrement _ | _, _, .displaced _
  | _, _, .absoluteLong => true
  | .long, .read, .pcDisplaced | .quad, .read, .pcDisplaced => true
  | _, .read, .immediate => true
  | _, _, _ => false

theorem supports_of (access : Access) (place : EffectiveAddress) :
    supports access (.of place) = access.supports place := by
  obtain ⟨width, direction⟩ := access
  cases width <;> cases direction <;> cases place <;> rfl

/-! ## Commands -/

/-- Where an arithmetic command finds its source. -/
inductive Source where
  | register (number : UInt8)
  | memory (format : Format)
  deriving DecidableEq, Repr

/-- The fields of a command word, with register numbers that may be anything. -/
inductive Fields where
  | arithmetic (source : Source) (destination : UInt8) (opmode : UInt8)
  | moveToMemory (format : Format) (source : UInt8)
  | moveControl (toMemory : Bool) (select : UInt8)
  | moveMultiple (toMemory : Bool) (mode : UInt8) (list : UInt8)
  deriving DecidableEq, Repr

/-- The data format of a code. -/
def formatOf : (code : UInt16) → Except Panic Format
  | 0 => .ok .longInteger
  | 1 => .ok .single
  | 2 => .ok .extended
  | 3 => .ok .packed
  | 4 => .ok .wordInteger
  | 5 => .ok .double
  | 6 => .ok .byteInteger
  | 7 => .ok .packedDynamic
  | _ => .error .missingCase

theorem formatOf_eq (code : Fin 8) : formatOf (UInt16.ofNat code) = .ok (Format.decode code) := by
  match code with
  | 0 | 1 | 2 | 3 | 4 | 5 | 6 | 7 => rfl

/-- The source of an arithmetic command: bit 14 tells a format from a register. -/
def Source.decode (word : UInt16) : Except Panic Source :=
  if masked word 14 1 != 0 then memory <$> formatOf (masked word 10 7)
  else .ok (register (masked word 10 7).toUInt8)

/-- A typed source, with a plain register number. -/
def Source.of : CommandSource → Source
  | .register n => register (UInt8.ofNat n)
  | .memory format => memory format

namespace Fields

/-- The fields of a command word, whose class is in its top three bits. -/
def decode (word : UInt16) : Except Panic (Option Fields) :=
  match masked word 13 7 with
  | 0 | 2 => do
    let source ← Source.decode word
    .ok (some (.arithmetic source (masked word 7 7).toUInt8 (masked word 0 0x7F).toUInt8))
  | 3 => do
    let format ← formatOf (masked word 10 7)
    .ok (some (.moveToMemory format (masked word 7 7).toUInt8))
  | 4 | 5 => .ok (some (.moveControl (masked word 13 1 != 0) (masked word 10 7).toUInt8))
  | 6 | 7 =>
    .ok (some (.moveMultiple (masked word 13 1 != 0) (masked word 11 3).toUInt8
      (masked word 0 0xFF).toUInt8))
  | _ => .ok none

/-- Typed fields, with plain register numbers. -/
def of : Command → Fields
  | .arithmetic source destination opmode =>
    arithmetic (.of source) (UInt8.ofNat destination) opmode
  | .moveToMemory format source => moveToMemory format (UInt8.ofNat source)
  | .moveControl toMemory select => moveControl toMemory select
  | .moveMultiple toMemory mode list => moveMultiple toMemory mode list

/-- The lowest bit of a class is bit 13 of the word. -/
theorem masked_thirteen (word : UInt16) :
    masked word 13 1 = UInt16.ofNat ((octalField word 13).val % 2) := by
  have hbit : bitField word 13 1 = bitField word 13 3 % 2 :=
    (Nat.mod_mod_of_dvd _ (by decide)).symm
  rw [masked_eq word (by decide) (show (1 : UInt16).toNat = 1 <<< 1 - 1 from rfl)]
  exact congrArg UInt16.ofNat hbit

/-- The middle bit of a class is bit 14 of the word. -/
theorem masked_fourteen (word : UInt16) :
    masked word 14 1 = UInt16.ofNat ((octalField word 13).val / 2 % 2) := by
  have hbit : bitField word 14 1 = bitField word 13 3 / 2 % 2 := by
    show word.toNat >>> 14 % 2 = word.toNat >>> 13 % 8 / 2 % 2
    simp only [Nat.shiftRight_eq_div_pow]
    omega
  rw [masked_eq word (by decide) (show (1 : UInt16).toNat = 1 <<< 1 - 1 from rfl)]
  exact congrArg UInt16.ofNat hbit

theorem decode_eq (word : UInt16) : decode word = .ok ((Command.decode word).map of) := by
  have hclass : masked word 13 7 = UInt16.ofNat (octalField word 13) :=
    masked_eq word (by decide) (by decide)
  have hcode : masked word 10 7 = UInt16.ofNat (octalField word 10) :=
    masked_eq word (by decide) (by decide)
  have hselect : (UInt16.ofNat (octalField word 10)).toUInt8 = byteField word 10 3 :=
    hcode ▸ toUInt8_masked word (by decide) (by decide)
  have hregister : (masked word 7 7).toUInt8 = UInt8.ofNat (octalField word 7) :=
    toUInt8_masked word (by decide) (by decide)
  have hopmode : (masked word 0 0x7F).toUInt8 = byteField word 0 7 :=
    toUInt8_masked word (by decide) (by decide)
  have hmode : (masked word 11 3).toUInt8 = byteField word 11 2 :=
    toUInt8_masked word (by decide) (by decide)
  have hlist : (masked word 0 0xFF).toUInt8 = byteField word 0 8 :=
    toUInt8_masked word (by decide) (by decide)
  unfold decode Source.decode Command.decode
  rw [masked_thirteen, masked_fourteen, hclass, hcode, hselect, hregister, hopmode, hmode, hlist]
  -- Bits 13 and 14 are decided by the class, of which there are eight.
  generalize octalField word 13 = commandClass
  match commandClass with
  | 0 | 1 | 4 | 5 | 6 | 7 => rfl
  | 2 | 3 =>
    rw [formatOf_eq]
    rfl

end Fields

end Checked

end M68Fpu
