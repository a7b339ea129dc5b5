/-!
# Words of different widths

Sign extension to 32 bits, and the two longs of a 64-bit word.
-/

namespace M68Fpu

/-- A byte read as a signed number, in 32 bits. -/
def signExtendByte (byte : UInt8) : UInt32 := byte.toInt8.toInt32.toUInt32

/-- A word read as a signed number, in 32 bits. -/
def signExtendWord (word : UInt16) : UInt32 := word.toInt16.toInt32.toUInt32

/-- The 64-bit word with a given upper and lower half. -/
def joinLongs (high low : UInt32) : UInt64 := UInt64.ofNat (high.toNat * 0x100000000 + low.toNat)

/-- The upper half of a 64-bit word. -/
def highLong (quad : UInt64) : UInt32 := UInt32.ofNat (quad.toNat / 0x100000000)

def lowLong (quad : UInt64) : UInt32 := UInt32.ofNat quad.toNat

theorem toNat_joinLongs (high low : UInt32) :
    (joinLongs high low).toNat = high.toNat * 0x100000000 + low.toNat := by
  have hhigh := high.toNat_lt
  have hlow := low.toNat_lt
  simp only [joinLongs, UInt64.toNat_ofNat']
  omega

@[simp] theorem highLong_joinLongs (high low : UInt32) : highLong (joinLongs high low) = high := by
  have hhigh := high.toNat_lt
  have hlow := low.toNat_lt
  apply UInt32.toNat_inj.mp
  simp only [highLong, toNat_joinLongs, UInt32.toNat_ofNat']
  omega

@[simp] theorem lowLong_joinLongs (high low : UInt32) : lowLong (joinLongs high low) = low := by
  have hlow := low.toNat_lt
  apply UInt32.toNat_inj.mp
  simp only [lowLong, toNat_joinLongs, UInt32.toNat_ofNat']
  omega

@[simp] theorem joinLongs_highLong_lowLong (quad : UInt64) :
    joinLongs (highLong quad) (lowLong quad) = quad := by
  have hquad := quad.toNat_lt
  apply UInt64.toNat_inj.mp
  simp only [toNat_joinLongs, highLong, lowLong, UInt32.toNat_ofNat']
  omega

end M68Fpu
