import ScopeLint.Text.Quoted

/-!
Strings of JSON texts. Writing also escapes the characters that would be unsafe inside a web
page; reading accepts every form that the grammar allows. Bytes that decode to nothing are
written as an escaped U+FFFD.
-/

namespace ScopeLint.JsonString

/-- The escapes of one letter, as the letter behind the backslash and the code point. -/
def shortEscapes : List (Char × Nat) :=
  [('"', 0x22), ('\\', 0x5C), ('/', 0x2F), ('b', 0x08), ('f', 0x0C), ('n', 0x0A), ('r', 0x0D),
    ('t', 0x09)]

def isUnsafe (char : Char) : Bool :=
  char.toNat < 0x20 || char = '"' || char = '\\' || char = '<' || char = '>' || char = '&'
    || char.toNat = 0x2028 || char.toNat = 0x2029

def writeChar (char : Char) : Text :=
  if isUnsafe char then
    match shortEscapes.find? fun entry => entry.2 = char.toNat with
    | some (letter, _) => Text.ofChars ['\\', letter]
    | none => "\\u" ++ Text.hex 4 char.toNat
  else Text.ofChar char

def writePiece (piece : Piece) : Text :=
  if piece.isBad then "\\u" ++ Text.hex 4 piece.char.toNat else writeChar piece.char

def write (text : Text) : Text := "\"" ++ text.pieces.flatMap writePiece ++ "\""

def hexValue? (char : Char) : Option Nat :=
  if '0' ≤ char && char ≤ '9' then some (char.toNat - 0x30)
  else if 'a' ≤ char && char ≤ 'f' then some (char.toNat - 0x57)
  else if 'A' ≤ char && char ≤ 'F' then some (char.toNat - 0x37)
  else none

def unit? : List Char → Option Nat
  | [a, b, c, d] => do
      return (((← hexValue? a) * 16 + (← hexValue? b)) * 16 + (← hexValue? c)) * 16
        + (← hexValue? d)
  | _ => none

/-- One item of a string: a character, or a unit of a character written in sixteen bits. -/
inductive Item where
  | char (value : Char)
  | unit (value : Nat)

/-- The items of a string from behind its opening quote, and what follows the closing one.
Reading with `skip` characters that belong to the item before. -/
def readItems : (skip : Nat) → List Char → Option (List Item × List Char)
  | _, [] => none
  | skip + 1, _ :: rest => readItems skip rest
  | 0, char :: rest =>
      if char = '"' then some ([], rest)
      else if char.toNat < 0x20 then none
      else if char = '\\' then
        match rest with
        | [] => none
        | letter :: digits =>
            if letter = 'u' then do
              let unit ← unit? (digits.take 4)
              let (items, behind) ← readItems 5 rest
              return (.unit unit :: items, behind)
            else do
              let (_, point) ← shortEscapes.find? fun entry => entry.1 = letter
              let (items, behind) ← readItems 1 rest
              return (.char (Char.ofNat point) :: items, behind)
      else do
        let (items, behind) ← readItems 0 rest
        return (.char char :: items, behind)

def isHighUnit (unit : Nat) : Bool := 0xD800 ≤ unit && unit < 0xDC00

def isLowUnit (unit : Nat) : Bool := 0xDC00 ≤ unit && unit < 0xE000

def pair? : Option Nat → Item → Option Char
  | some high, .unit low =>
      if isLowUnit low then
        some (Char.ofNat (0x10000 + (high - 0xD800) * 0x400 + (low - 0xDC00)))
      else none
  | _, _ => none

/-- The characters of items behind a high surrogate that waits for its partner. A surrogate
without its partner is U+FFFD. -/
def charsOf : (waiting : Option Nat) → List Item → List Char
  | waiting, [] => waiting.toList.map fun _ => Utf8.replacement
  | waiting, item :: rest =>
      match pair? waiting item with
      | some char => char :: charsOf none rest
      | none =>
          (waiting.toList.map fun _ => Utf8.replacement) ++ match item with
            | .char char => char :: charsOf none rest
            | .unit unit =>
                if isHighUnit unit then charsOf (some unit) rest
                else if isLowUnit unit then Utf8.replacement :: charsOf none rest
                else Char.ofNat unit :: charsOf none rest

def isJsonBlank (char : Char) : Bool :=
  char = ' ' || char = '\t' || char = '\n' || char = '\r'

def read? (text : Text) : Option Text :=
  match text.chars.dropWhile isJsonBlank with
  | '"' :: rest => do
      let (items, behind) ← readItems 0 rest
      if behind.all isJsonBlank then some (Text.ofChars (charsOf none items)) else none
  | _ => none

def isNull (text : Text) : Bool :=
  match text.chars.dropWhile isJsonBlank with
  | 'n' :: 'u' :: 'l' :: 'l' :: rest => rest.all isJsonBlank
  | _ => false

end ScopeLint.JsonString
