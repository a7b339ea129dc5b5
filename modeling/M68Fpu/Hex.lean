/-!
# Hexadecimal text

Numbers as a fixed count of hexadecimal digits.
-/

namespace M68Fpu

namespace Hex

/-- The lowest `width` hexadecimal digits of a number, highest first. -/
def digits (width value : Nat) : List Char :=
  (List.range width).reverse.map fun place => ((value >>> (4 * place)) % 16).digitChar

def lower (width value : Nat) : String := String.ofList (digits width value)

def upper (width value : Nat) : String := String.ofList ((digits width value).map Char.toUpper)

end Hex

end M68Fpu
