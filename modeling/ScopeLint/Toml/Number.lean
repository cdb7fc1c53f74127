import ScopeLint.Text.Integer
import ScopeLint.Toml.Fault

/-!
Numbers of a TOML document, as the rules for a text that has the characters of a number. Single
underscores may stand between digits, a decimal number has no needless zero in front, and a number
has to fit its 64-bit type: an integer the signed range, a float the finite range.
-/

namespace ScopeLint.Toml

def underscore : UInt8 := 0x5F

def digit? (base : Nat) (byte : UInt8) : Option Nat :=
  (Text.hexValue? byte).filter (· < base)

def ofDigits (base : Nat) (digits : List Nat) : Nat :=
  digits.foldl (fun number digit => number * base + digit) 0

def digits? (base : Nat) (text : Text) : Option (List Nat) :=
  match text.filter (· ≠ underscore) with
  | [] => none
  | bytes => bytes.mapM (digit? base)

/-- The floats that are no numbers, with and without a sign. -/
def floatWords : List Text := ["nan", "+nan", "-nan", "inf", "+inf", "-inf"].map Text.ofString

/-- Whether every underscore follows a digit and the text ends with one. A digit of any base is good
enough here. -/
def underscoresFit (text : Text) : Bool := floatWords.contains text || fits false text
where
  fits : (afterDigit : Bool) → Text → Bool
    | afterDigit, [] => afterDigit
    | afterDigit, byte :: rest =>
        (byte ≠ underscore || afterDigit) && fits (Text.hexValue? byte).isSome rest

def bases : List (Text × Nat) :=
  [(Text.ofString "0x", 16), (Text.ofString "0o", 8), (Text.ofString "0b", 2)]

def hasLeadingZero (text : Text) : Bool :=
  let (_, number) := text.unsigned
  number.startsWith "0" && 1 < number.length
    && (number ≠ text || bases.all fun (mark, _) => !text.startsWith mark)

/-- A number in a marked base, which takes no sign. -/
def marked? (text : Text) : Option Int :=
  bases.findSome? fun (mark, base) =>
    (text.after? mark).bind fun rest => (digits? base rest).map fun digits => ofDigits base digits

/-- A decimal number with or without a sign, which may have zeros in front. -/
def signed? (text : Text) : Option Int := do
  let (negative, rest) := text.unsigned
  let number : Int := ofDigits 10 (← digits? 10 rest)
  return if negative then -number else number

def fitsInteger (number : Int) : Bool :=
  -9223372036854775808 ≤ number && number ≤ 9223372036854775807

def integer (text : Text) : Except Fault Int :=
  if !underscoresFit text then .error (.underscores .integer text)
  else if hasLeadingZero text then .error (.leadingZeros .integer text)
  else match (marked? text <|> signed? text).filter fitsInteger with
    | some number => .ok number
    | none => .error (.outOfRange .integer text)

/-- The least number that rounds to no finite float. -/
def floatLimit : Nat := Nat.pow 2 1024 - Nat.pow 2 970

/-- Whether the digits, scaled by a power of ten, round to a finite float. -/
def isFinite (digits : List Nat) (scale : Int) : Bool :=
  let significant := digits.dropWhile (· = 0)
  let size := significant.length + scale
  if significant.isEmpty || size ≤ 300 then true
  else if 400 < size then false
  else
    let number := ofDigits 10 significant
    number * Nat.pow 10 scale.toNat < floatLimit * Nat.pow 10 (-scale).toNat

def point : UInt8 := 0x2E

def exponentMarks : List UInt8 := [Text.byte 'e', Text.byte 'E']

def decimal? (text : Text) : Option (List Nat × Int) := do
  let (mantissa, exponent) := (text.unsigned.2).cutAt exponentMarks
  let (whole, fraction) := mantissa.cutAt [point]
  let whole ← digits? 10 whole
  let fraction ← (fraction.map (digits? 10)).getD (some [])
  let exponent ← (exponent.map signed?).getD (some 0)
  return (whole ++ fraction, exponent - fraction.length)

/-- The parts of a float between points and marks of an exponent, empty ones left out. -/
def floatParts (text : Text) : List Text :=
  (text.splitBy fun left right => isMark left = isMark right).filter fun part => !part.any isMark
where
  isMark (byte : UInt8) : Bool := byte = point || exponentMarks.contains byte

def pointsFit (text : Text) : Bool :=
  match text with
  | [] => true
  | byte :: rest =>
      (byte ≠ point || ((rest.head?.bind (digit? 10)).isSome)) && pointsFit rest

/-- A float of a document, as it is written. -/
def float (text : Text) : Except Fault Text :=
  let parts := floatParts text
  if parts.any fun part => !underscoresFit part then .error (.underscores .float text)
  else if parts.head?.any hasLeadingZero then .error (.leadingZeros .float text)
  else if !pointsFit text then .error (.barePoint text)
  else if floatWords.contains text then .ok text
  else match decimal? text with
    | none => .error (.badFloat text)
    | some (digits, scale) =>
        if isFinite digits scale then .ok text else .error (.outOfRange .float text)

end ScopeLint.Toml
