import ScopeLint.Text.Letter
import ScopeLint.Toml.Moment
import ScopeLint.Toml.Quoted

/-!
Values of a TOML document without parts. The first characters decide what a value is: digits with a
dash or a colon behind them start a date or a time, other digits a number, letters a word.
-/

namespace ScopeLint.Toml

/-- A value without parts. Floats and moments are kept as written. -/
inductive Scalar where
  | string (content : Text)
  | integer (number : Int)
  | float (written : Text)
  | boolean (truth : Bool)
  | moment (written : Text)
  deriving DecidableEq, Repr

def Base.ofMark? : Char → Option Base
  | 'b' => some .binary
  | 'o' => some .octal
  | 'x' => some .hexadecimal
  | _ => none

def Base.hasDigit (base : Base) (char : Char) : Bool :=
  match base with
  | .binary => char = '0' || char = '1'
  | .octal => '0' ≤ char && char ≤ '7'
  | .hexadecimal => isHexDigit char

namespace Scan

def isDecimalChar (char : Char) : Bool := Text.isAsciiDigit char || char = '_'

def isFloatChar (char : Char) : Bool :=
  Text.isAsciiDigit char || ['_', '.', '-', '+', 'e', 'E'].elem char

def isMomentChar (char : Char) : Bool :=
  Text.isAsciiDigit char || ['-', ':', 'T', 't', ' ', '.', 'Z', 'z', '+'].elem char

def integerOf (written : Text) : Scan Scalar := do
  return .integer (← lift (integer written))

def floatOf (written : Text) : Scan Scalar := do
  return .float (← lift (float written))

def decimal (front : Text) : Scan Scalar := do
  let whole := front ++ (← readWhile isDecimalChar)
  if ((← peek).map fun char => ['.', 'e', 'E'].elem char) = some true then
    floatOf (whole ++ (← readWhile isFloatChar))
  else integerOf whole

def moment (front : Text) : Scan Scalar := do
  let written := Text.trimBytes [0x20] (front ++ (← readWhile isMomentChar))
  if isMoment written then return .moment written
  else fail (.badMoment (written.map momentByte))

def based (base : Base) (front : Text) : Scan Scalar := do
  let found ← peek
  if (found.map base.hasDigit) = some true then
    integerOf (front ++ (← readWhile fun char => base.hasDigit char || char = '_'))
  else fail (.noBaseDigit base front found)

/-- Reads what starts with a digit. A date does not start with a single zero. -/
def number (first : Char) : Scan Scalar := do
  let front := Text.ofChar first ++ (← readWhile Text.isAsciiDigit)
  let found ← peek
  if front = Text.ofString "0" then
    match found.bind Base.ofMark? with
    | some base => do
        let _ ← next
        based base (front ++ Text.ofChars found.toList)
    | none => decimal front
  else if found = some '-' || found = some ':' then moment front
  else decimal front

/-- Reads what starts with a sign: a decimal number or a float that is no number. -/
def signed (sign : Char) : Scan Scalar := do
  let found ← next
  let front := Text.ofChars (sign :: found.toList)
  match found with
  | some 'i' => word front 'n' 'f'
  | some 'n' => word front 'a' 'n'
  | some '.' => fail .leadingPoint
  | some '0' => do
      match (← peek).filter fun mark => (Base.ofMark? mark).isSome with
      | some mark => fail (.signedBase front mark)
      | none => decimal front
  | _ =>
      if (found.map Text.isAsciiDigit) = some true then decimal front
      else failOn found (.noDigit found)
where
  /-- Reads the other two letters of a float that is no number. -/
  word (front : Text) (second third : Char) : Scan Scalar := do
    if !(← accept second) then fail (.unknownFloat front)
    else if !(← accept third) then fail (.unknownFloat (front ++ Text.ofChar second))
    else floatOf (front ++ Text.ofChars [second, third])

def truth (front : Text) : Scan Scalar := do
  let word := front ++ (← readWhile Text.isLetter)
  if word = Text.ofString "true" then return .boolean true
  else if word = Text.ofString "false" then return .boolean false
  else fail (.unknownWord word)

/-- Reads what starts with a letter that a float without a number can start with. A word that turns
out to be something else is known from the last of the letters that fitted. -/
def floatWord (first : Char) : Scan Scalar := do
  if ← accept 'n' then
    if ← accept 'f' then floatOf (Text.ofChars [first, 'n', 'f'])
    else ending [first, 'n'] 'n'
  else ending [first] first
where
  /-- Reads the last two letters, else a word from the last letter on. -/
  ending (front : List Char) (last : Char) : Scan Scalar := do
    if !(← accept 'a') then truth (Text.ofChar last)
    else if !(← accept 'n') then truth (Text.ofChar 'a')
    else floatOf (Text.ofChars (front ++ ['a', 'n']))

def scalar : Scan Scalar := do
  match ← next with
  | none => failOn none .valueMissing
  | some first =>
      if Text.isAsciiDigit first then number first
      else if first = '"' || first = '\'' then return .string (← string first)
      else if first = '.' then fail .leadingPoint
      else if first = 'i' || first = 'n' then floatWord first
      else if first = '-' || first = '+' then signed first
      else if Text.isLetter first then truth (Text.ofChar first)
      else if first = '\n' then failBefore (.noValue first)
      else fail (.noValue first)

end Scan

end ScopeLint.Toml
