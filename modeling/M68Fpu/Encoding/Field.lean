/-!
# Bit fields of instruction words
-/

namespace M68Fpu

/-- The `width` bits of a word from bit `low` up. -/
def bitField (word : UInt16) (low width : Nat) : Nat := (word.toNat >>> low) % (1 <<< width)

theorem bitField_lt (word : UInt16) (low width : Nat) :
    bitField word low width < 1 <<< width :=
  Nat.mod_lt _ (by rw [Nat.one_shiftLeft]; exact Nat.two_pow_pos width)

/-- The three-bit field of a word from bit `low` up: a register number or a code. -/
def octalField (word : UInt16) (low : Nat) : Fin 8 := ⟨bitField word low 3, bitField_lt word low 3⟩

/-- A bit field of at most eight bits, as a byte. -/
def byteField (word : UInt16) (low width : Nat) : UInt8 := UInt8.ofNat (bitField word low width)

end M68Fpu
