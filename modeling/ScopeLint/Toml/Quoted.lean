import ScopeLint.Text.Digit
import ScopeLint.Toml.Scan
import ScopeLint.Toml.Number

/-!
Strings of a TOML document. Double quotes allow escapes and single quotes none; three quotes hold
a text of several lines, and then up to two quotes may stand right before the closing three. A
string is first read as it is written, which checks the form of its escapes, and then unescaped.
-/

namespace ScopeLint.Toml

def letterEscapes : List (Char × UInt8) :=
  [('b', 0x08), ('t', 0x09), ('n', 0x0A), ('f', 0x0C), ('r', 0x0D), ('e', 0x1B), ('"', 0x22),
    ('\\', 0x5C)]

def numberEscapes : List (Char × Nat) := [('x', 2), ('u', 4), ('U', 8)]

def isHexDigit (char : Char) : Bool :=
  Text.isAsciiDigit char || ('a' ≤ char && char ≤ 'f') || ('A' ≤ char && char ≤ 'F')

namespace Scan

/-- The text of characters that were read, the last one first. -/
def textOf (seen : List Char) : Text := Text.ofChars seen.reverse

def escapeDigits (letter : Char) : (count : Nat) → (seen : List Char) → Scan (List Char)
  | 0, seen => return seen
  | count + 1, seen => do
      let found ← next
      match found.filter isHexDigit with
      | some digit => escapeDigits letter count (digit :: seen)
      | none => failOn found (.escapeDigits letter (textOf (found.toList ++ seen)))

/-- Reads an escape from behind its backslash. A blank is let through, since it may stand between
the backslash and the end of a line. -/
def escape (seen : List Char) : Scan (List Char) := do
  match ← next with
  | none => failBefore (.unknownEscape none)
  | some char =>
      if isGap char || (letterEscapes.lookup char).isSome then return char :: seen
      else match numberEscapes.lookup char with
        | some count => escapeDigits char count (char :: seen)
        | none => fail (.unknownEscape char)

def openLine (quote : Char) : Scan Text :=
  failOn none (.openString (if quote = '"' then "'\"'" else "\"'\""))

def openBlock (quote : Char) : Scan Text :=
  failOn none (.openString (if quote = '"' then "'\"\"\"'" else "\"'''\""))

/-- Reads a string of one line up to its closing quote, which stands within `bound`. -/
def lineFrom (quote : Char) : (bound : List Piece) → (seen : List Char) → Scan Text
  | [], _ => openLine quote
  | _ :: bound, seen => do
      match ← next with
      | none => openLine quote
      | some char =>
          if char = quote then return textOf seen
          else if isLineEnd char then failBefore .lineEndInString
          else if char = '\\' && quote = '"' then do
            lineFrom quote bound (← escape (char :: seen))
          else lineFrom quote bound (char :: seen)

/-- Whether five quotes stand right before another one, three of them just read. An escaped quote
is not told from an escaped backslash with a quote behind it. -/
def isQuoteRun (quote : Char) (seen : List Char) : Bool :=
  [quote, quote].isPrefixOf seen && !(quote = '"' && [quote, quote, '\\'].isPrefixOf seen)

def blockFrom (quote : Char) : (bound : List Piece) → (seen : List Char) → Scan Text
  | [], _ => openBlock quote
  | _ :: bound, seen => do
      match ← next with
      | none => openBlock quote
      | some char =>
          if char = quote then do
            let one ← get
            if !(← accept quote) then blockFrom quote bound (char :: seen)
            else if !(← accept quote) then do
              set one
              blockFrom quote bound (char :: seen)
            else if (← peek) = some quote then
              if isQuoteRun quote seen then
                fail (.quoteRun (if quote = '"' then "'\"\"\"\"\"\"'" else "\"''''''\""))
              else do
                set one
                blockFrom quote bound (char :: seen)
            else return textOf seen
          else if char = '\\' && quote = '"' then do
            match ← peek with
            | some behind =>
                if isLineEnd behind then blockFrom quote bound (char :: seen)
                else blockFrom quote bound (← escape (char :: seen))
            | none => blockFrom quote bound (← escape (char :: seen))
          else blockFrom quote bound (char :: seen)

end Scan

/-- What stands behind a backslash at the end of a line: the next byte that is no blank. -/
def afterLineBreak? (text : Text) : Option Text :=
  let blank := fun byte => [0x20, 0x09, 0x0A, 0x0D].elem byte
  if (text.takeWhile blank).contains Text.lineFeed then some (text.dropWhile blank) else none

def charOf? (number : Nat) : Option Text :=
  if number.isValidChar then some (Text.ofChar (Char.ofNat number)) else none

def meaning (letter : Char) (rest : Text) : Except Fault (Text × Text) :=
  match letterEscapes.lookup letter, numberEscapes.lookup letter with
  | some byte, _ => .ok ([byte], rest)
  | none, none => .error (.blankEscape letter)
  | none, some count =>
      let digits := rest.take count
      match (digits? 16 digits).bind fun values => charOf? (ofDigits 16 values) with
      | some char => .ok (char, rest.drop count)
      | none => .error (.escapedNumber digits)

def unescape : (fuel : Nat) → Text → Except Fault Text
  | 0, text => .ok text
  | _ + 1, [] => .ok []
  | fuel + 1, byte :: rest =>
      if byte ≠ Text.byte '\\' then return byte :: (← unescape fuel rest)
      else match afterLineBreak? rest, rest with
        | some behind, _ => unescape fuel behind
        | none, [] => .ok []
        | none, letter :: rest => do
            let (char, behind) ← meaning (Char.ofNat letter.toNat) rest
            return char ++ (← unescape fuel behind)

/-- A line end right behind the opening quotes does not belong to the string. -/
def dropFirstLineEnd (text : Text) : Text :=
  ((text.after? "\n") <|> (text.after? "\r\n")).getD text

namespace Scan

def meant (quote : Char) (written : Text) : Scan Text :=
  if quote = '"' then lift (unescape written.length written) else return written

def lineString (quote : Char) : Scan Text := do
  meant quote (← lineFrom quote (← get).rest [])

def string (quote : Char) : Scan Text := do
  if !(← accept quote) then lineString quote
  else if !(← accept quote) then return []
  else meant quote (dropFirstLineEnd (← blockFrom quote (← get).rest []))

end Scan

end ScopeLint.Toml
