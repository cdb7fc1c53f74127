import ScopeLint.Text.Hex

/-!
Integers on a command line. A sign may stand in front, a mark behind it chooses the base, a zero
without a mark means base eight, and underscores may separate digits. The number has to fit the
signed range of 64 bits.
-/

namespace ScopeLint

inductive IntegerFault where
  | malformed
  | outOfRange
  deriving DecidableEq, Repr

def IntegerFault.message : IntegerFault → Text
  | malformed => "invalid syntax"
  | outOfRange => "value out of range"

namespace Text

def markedBase? (mark : UInt8) : Option Nat :=
  if mark = byte 'b' || mark = byte 'B' then some 2
  else if mark = byte 'o' || mark = byte 'O' then some 8
  else if mark = byte 'x' || mark = byte 'X' then some 16
  else none

/-- The base of a number without its sign, whether a letter marks it, and the digits. -/
def base (text : Text) : Nat × Bool × Text :=
  match text with
  | 0x30 :: mark :: digit :: rest =>
      match markedBase? mark with
      | some base => (base, true, digit :: rest)
      | none => (8, false, text)
  | 0x30 :: _ => (8, false, text)
  | _ => (10, false, text)

/-- The number that digits continue. A number that grows too large ends the reading. -/
def natural (base : Nat) : (number : Nat) → Text → Except IntegerFault Nat
  | number, [] => .ok number
  | number, head :: rest =>
      if head = byte '_' then natural base number rest
      else match (hexValue? head).filter (· < base) with
        | none => .error .malformed
        | some digit =>
            let next := number * base + digit
            if next < Nat.pow 2 64 then natural base next rest else .error .outOfRange

/-- Whether underscores stand only between digits, a mark counting as one. -/
def underscoresSeparate (isMarked : Bool) (digits : Text) : Bool :=
  match digits.splitOn (byte '_') with
  | [] => true
  | first :: others => (isMarked || first ≠ []) && others.all (· ≠ [])

def unsigned (text : Text) : Bool × Text :=
  match text.after? "-" with
  | some rest => (true, rest)
  | none => (false, (text.after? "+").getD text)

def integer (text : Text) : Except IntegerFault Int := do
  let (isNegative, number) := unsigned text
  let (base, isMarked, digits) := base number
  let size ← natural base 0 digits
  if !underscoresSeparate isMarked digits then .error .malformed
  else if isNegative then
    if size ≤ Nat.pow 2 63 then return -size else .error .outOfRange
  else if size < Nat.pow 2 63 then return size else .error .outOfRange

end Text

end ScopeLint
