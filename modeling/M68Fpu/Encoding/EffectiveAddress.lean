/-!
# Effective addresses

The low six bits of an opcode name where an operand is: a mode in bits 3 to 5 and a register in bits
0 to 2. This module decodes the field and says which locations an access of a given width and
direction may use.
-/

namespace M68Fpu

/-- The operand locations of the addressing modes. -/
inductive EffectiveAddress where
  | dataRegister (n : Fin 8)
  | addressRegister (n : Fin 8)
  | indirect (n : Fin 8)
  | postIncrement (n : Fin 8)
  | preDecrement (n : Fin 8)
  | displaced (n : Fin 8)
  | indexed (n : Fin 8)
  | pcDisplaced
  | pcIndexed
  | absoluteShort
  | absoluteLong
  | immediate
  deriving DecidableEq, Repr

namespace EffectiveAddress

def modeOf (field : UInt8) : Fin 8 := ⟨field.toNat / 8 % 8, Nat.mod_lt _ (by decide)⟩

def registerOf (field : UInt8) : Fin 8 := ⟨field.toNat % 8, Nat.mod_lt _ (by decide)⟩

/-- The location that the low six bits of `field` name. The last three registers of mode 7 name
none. -/
def decode (field : UInt8) : Option EffectiveAddress :=
  let n := registerOf field
  match modeOf field with
  | 0 => some (dataRegister n)
  | 1 => some (addressRegister n)
  | 2 => some (indirect n)
  | 3 => some (postIncrement n)
  | 4 => some (preDecrement n)
  | 5 => some (displaced n)
  | 6 => some (indexed n)
  | 7 =>
    match n with
    | 0 => some absoluteShort
    | 1 => some absoluteLong
    | 2 => some pcDisplaced
    | 3 => some pcIndexed
    | 4 => some immediate
    | _ => none

end EffectiveAddress

/-! ## Accesses -/

/-- The address register that is the stack pointer. -/
def stackPointer : Fin 8 := ⟨7, by decide⟩

inductive Width where
  | byte
  | word
  | long
  | quad
  /-- A slot of 96 bits that holds a double in its first 64. -/
  | extended
  deriving DecidableEq, Repr

namespace Width

def bytes : Width → Nat
  | byte => 1
  | word => 2
  | long => 4
  | quad => 8
  | extended => 12

/-- The bits of an operand. -/
def bits (width : Width) : Nat := width.bytes * 8

/-- How far an access moves address register `n`. The stack pointer moves by whole words. -/
def step (width : Width) (n : Fin 8) : UInt32 :=
  if width = byte ∧ n = stackPointer then 2 else UInt32.ofNat width.bytes

end Width

inductive Direction where
  | read
  | write
  deriving DecidableEq, Repr

/-- The name of a direction, as what it does to a format. -/
def Direction.text : Direction → String
  | read => "load"
  | write => "store"

/-- The use that an instruction makes of its operand. -/
structure Access where
  width : Width
  direction : Direction
  deriving DecidableEq, Repr

namespace Access

/-- An access in words: its direction and its width in bits. -/
def text (access : Access) : String :=
  (match access.direction with
    | .read => "read ea "
    | .write => "write ea ") ++ toString access.width.bits

/-- Whether an access may use a location.

Extended slots live on a stack: they are popped and pushed and nothing else. The other widths use
memory through an address register or an absolute address; widths up to 32 bits also use a data
register and an index, reads also an immediate, and long and quad reads a displacement from the
program counter. -/
def supports (access : Access) : EffectiveAddress → Bool
  | .postIncrement _ => access.width != .extended || access.direction == .read
  | .preDecrement _ => access.width != .extended || access.direction == .write
  | .indirect _ | .displaced _ | .absoluteLong => access.width != .extended
  | .dataRegister _ | .indexed _ => access.width != .extended && access.width != .quad
  | .pcDisplaced => access.direction == .read && (access.width == .long || access.width == .quad)
  | .immediate => access.direction == .read && access.width != .extended
  | .addressRegister _ | .pcIndexed | .absoluteShort => false

end Access

end M68Fpu
