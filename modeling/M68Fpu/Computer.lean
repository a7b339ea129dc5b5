import M68Fpu.Bus.Memory
import M68Fpu.Machine.Step

/-!
# The computer

The processor on the computer's memory map.
-/

namespace M68Fpu

/-- The processor on its memory. -/
abbrev Computer := Machine Memory

namespace Computer

/-- A computer with a given image in its read-only memory, not yet reset. -/
def ofImage (image : List UInt8) : Computer := { bus := Memory.ofImage image }

end Computer

end M68Fpu
