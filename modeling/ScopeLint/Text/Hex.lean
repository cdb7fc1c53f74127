import ScopeLint.Text.Basic

/-!
Hexadecimal digits: small letters are written, both cases are read.
-/

namespace ScopeLint.Text

def hexDigit (digit : Nat) : UInt8 :=
  (if digit < 10 then 0x30 + digit else 0x57 + digit).toUInt8

/-- The lowest `width` hexadecimal digits of a number, most significant first. -/
def hex : (width : Nat) → Nat → Text
  | 0, _ => []
  | width + 1, number => hex width (number / 16) ++ [hexDigit (number % 16)]

def hexValue? (byte : UInt8) : Option Nat :=
  let number := byte.toNat
  if 0x30 ≤ number && number ≤ 0x39 then some (number - 0x30)
  else if 0x41 ≤ number && number ≤ 0x46 then some (number - 0x37)
  else if 0x61 ≤ number && number ≤ 0x66 then some (number - 0x57)
  else none

end ScopeLint.Text
