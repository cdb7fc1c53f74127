import ScopeLint.Text.Quoted
import ScopeLint.Toml.Key

/-!
What can be wrong with a TOML document, and how it is said. A fault is a cause without a place; an
error adds the line and the key that was read last.
-/

namespace ScopeLint.Toml

inductive NumberKind where
  | integer
  | float
  deriving DecidableEq, Repr

def NumberKind.name : NumberKind → Text
  | integer => "integer"
  | float => "float"

/-- The type whose range bounds the numbers of a kind. -/
def NumberKind.storage : NumberKind → Text
  | integer => "int64"
  | float => "float64"

inductive Base where
  | binary
  | octal
  | hexadecimal
  deriving DecidableEq, Repr

/-- What is wrong with a document. What was found instead of something else is `none` at the end of
the document. -/
inductive Fault where
  /-- A zero byte near the start, where it most often means another encoding. -/
  | zeroByte
  | badByte (bytes : Text)
  | controlChar (char : Char)
  | afterEntry (found : Char)
  | emptyHeader
  | dotInHeader
  | openHeader (found : Option Char)
  | openElement (found : Option Char)
  | blankKey
  | dotBeforeKey
  | blankName
  | dotBeforeName
  /-- The document ends behind a key. -/
  | keyAlone
  | afterName (found : Char)
  /-- The document ends where a value has to stand. -/
  | valueMissing
  | noValue (found : Char)
  | unknownWord (word : Text)
  | misplacedComma
  | afterItem (found : Option Char)
  | afterMember (found : Option Char)
  /-- The document ends inside a string that `closing` would end. -/
  | openString (closing : Text)
  | lineEndInString
  /-- More quotes in a row than a string of several lines can end with. -/
  | quoteRun (run : Text)
  | unknownEscape (found : Option Char)
  | escapeDigits (letter : Char) (written : Text)
  | blankEscape (char : Char)
  | escapedNumber (digits : Text)
  | leadingPoint
  | unknownFloat (written : Text)
  | signedBase (written : Text) (mark : Char)
  | noDigit (found : Option Char)
  | noBaseDigit (base : Base) (written : Text) (found : Option Char)
  | underscores (kind : NumberKind) (written : Text)
  | leadingZeros (kind : NumberKind) (written : Text)
  | barePoint (written : Text)
  | badFloat (written : Text)
  | outOfRange (kind : NumberKind) (written : Text)
  | badMoment (written : Text)
  /-- A key leads through something that is no table. -/
  | wayBlocked (key : Key)
  /-- An element is added to something that is no array of tables. -/
  | notTables (key : Key)
  | alreadyDefined (key : Key)
  | notTable (key : Key)
  /-- A value of another type than the one that is asked for. -/
  | wrongType (found wanted : Text)
  /-- A value that is no table where the fields of `record` are asked for. -/
  | tableWanted (record found : Text)

namespace Fault

/-- The end of a document reads as the character zero. -/
def charOf (found : Option Char) : Char := found.getD '\x00'

def quoted (found : Option Char) : Text := Text.quoteChar (charOf found)

def named : Option Char → Text
  | some char => "'" ++ Text.ofChar char ++ "'"
  | none => "end of file"

def digitCount (letter : Char) : Text :=
  if letter = 'x' then "two" else if letter = 'u' then "four" else "eight"

def ofBase : Base → Text
  | .binary => "a binary"
  | .octal => "an octal"
  | .hexadecimal => "a hexidecimal"

def message : Fault → Text
  | zeroByte =>
      "files cannot contain NULL bytes; probably using UTF-16; TOML files must be UTF-8"
  | badByte bytes => "invalid UTF-8 byte: 0x" ++ bytes.flatMap fun byte => Text.hex 2 byte.toNat
  | controlChar char =>
      "TOML files cannot contain control characters: '0x" ++ Text.hex 2 char.toNat ++ "'"
  | afterEntry found =>
      "expected a top-level item to end with a newline, comment, or EOF, but got "
        ++ Text.quoteChar found ++ " instead"
  | emptyHeader => "unexpected end of table name (table names cannot be empty)"
  | dotInHeader => "unexpected table separator (table names cannot be empty)"
  | openHeader found =>
      "expected '.' or ']' to end table name, but got " ++ quoted found ++ " instead"
  | openElement found =>
      "expected end of table array name delimiter ']', but got " ++ quoted found ++ " instead"
  | blankKey => "unexpected '=': key name appears blank"
  | dotBeforeKey => "unexpected '.': keys cannot start with a '.'"
  | blankName => "unexpected '='"
  | dotBeforeName => "unexpected '.'"
  | keyAlone => "unexpected EOF; expected key separator '='"
  | afterName found => "expected '.' or '=', but got " ++ Text.quoteChar found ++ " instead"
  | valueMissing => "unexpected EOF; expected value"
  | noValue found => "expected value but found " ++ Text.quoteChar found ++ " instead"
  | unknownWord word => "expected value but found " ++ word.quote ++ " instead"
  | misplacedComma => "unexpected comma"
  | afterItem found =>
      "expected a comma (',') or array terminator (']'), but got " ++ named found
  | afterMember found =>
      "expected a comma or an inline table terminator '\x7d', but got " ++ named found ++ " instead"
  | openString closing => "unexpected EOF; expected " ++ closing
  | lineEndInString => "strings cannot contain newlines"
  | quoteRun run => "unexpected " ++ run
  | unknownEscape found => "invalid escape in string '\\" ++ Text.ofChar (charOf found) ++ "'"
  | escapeDigits letter written =>
      "expected " ++ digitCount letter ++ " hexadecimal digits after '\\" ++ Text.ofChar letter
        ++ "', but got " ++ written.quote ++ " instead"
  | blankEscape char => "invalid escape: '\\" ++ Text.ofChar char ++ "'"
  | escapedNumber digits => "Escaped character '\\u" ++ digits ++ "' is not valid UTF-8."
  | leadingPoint => "floats must start with a digit, not '.'"
  | unknownFloat written => "invalid float: '" ++ written ++ "'"
  | signedBase written mark =>
      "cannot use sign with non-decimal numbers: '" ++ written ++ Text.ofChar mark ++ "'"
  | noDigit found => "expected a digit but got " ++ quoted found
  | noBaseDigit base written found =>
      "not " ++ ofBase base ++ " number: '" ++ written ++ Text.ofChar (charOf found) ++ "'"
  | underscores kind written =>
      "Invalid " ++ kind.name ++ " " ++ written.quote ++ ": underscores must be surrounded by digits"
  | leadingZeros kind written =>
      "Invalid " ++ kind.name ++ " " ++ written.quote ++ ": cannot have leading zeroes"
  | barePoint written =>
      "Invalid float " ++ written.quote ++ ": '.' must be followed by one or more digits"
  | badFloat written => "Invalid float value: " ++ written.quote
  | outOfRange kind written => written ++ " is out of range for " ++ kind.storage
  | badMoment written => "invalid datetime: " ++ written.quote
  | wayBlocked key => "Key '" ++ keyText key ++ "' was already created as a hash."
  | notTables key =>
      "Key '" ++ keyText key ++ "' was already created and cannot be used as an array."
  | alreadyDefined key => "Key '" ++ keyText key ++ "' has already been defined."
  | notTable key => Text.quote (keyText key) ++ " is not a table"
  | wrongType found wanted =>
      "incompatible types: TOML value has type " ++ found ++ "; destination has type " ++ wanted
  | tableWanted record found =>
      "type mismatch for " ++ record ++ ": expected table but found " ++ found

end Fault

structure Error where
  /-- Keys that only lead to others have no line. -/
  line : Option Nat
  /-- The key that was read last, empty before the first. -/
  key : Text
  fault : Fault

namespace Error

/-- The line and the last key, as far as they are known. -/
def place (error : Error) : List Text :=
  let line := error.line.toList.map fun line => Text.ofString "line " ++ Text.ofNat line
  if error.key = [] then line
  else line ++ [Text.ofString "(last key " ++ error.key.quote ++ Text.ofString ")"]

def message (error : Error) : Text :=
  let place := match error.place with
    | [] => []
    | place => Text.join " " place ++ Text.ofString ": "
  "toml: " ++ place ++ error.fault.message

end Error

end ScopeLint.Toml
