import ScopeLint.Text.Hex
import ScopeLint.Text.Utf8

/-!
Keys of a TOML document and how they are written: a name of letters, digits, dashes and underscores
stands for itself, any other one between double quotes.
-/

namespace ScopeLint.Toml

/-- The names of a key, from the outermost table inward. -/
abbrev Key := List Text

def isKeyByte (byte : UInt8) : Bool :=
  (0x41 ≤ byte && byte ≤ 0x5A) || (0x61 ≤ byte && byte ≤ 0x7A) || (0x30 ≤ byte && byte ≤ 0x39)
    || byte = Text.byte '_' || byte = Text.byte '-'

/-- Control characters other than tab and line ends. -/
def isControl (char : Char) : Bool :=
  (char.toNat < 0x20 && char ≠ '\t' && char ≠ '\n' && char ≠ '\r') || char.toNat = 0x7F

def nameEscapes : List (Char × Text) :=
  [('"', Text.ofString "\\\""), ('\\', Text.ofString "\\\\"), ('\x08', Text.ofString "\\b"),
    ('\t', Text.ofString "\\t"), ('\n', Text.ofString "\\n"), ('\x0c', Text.ofString "\\f"),
    ('\r', Text.ofString "\\r")]

def nameChar (char : Char) : Text :=
  match nameEscapes.lookup char with
  | some escape => escape
  | none => if isControl char then "\\u" ++ Text.hex 4 char.toNat else Text.ofChar char

/-- A name as it is written, in double quotes where it needs them. -/
def nameText (name : Text) : Text :=
  if name ≠ [] && name.all isKeyByte then name
  else "\"" ++ name.chars.flatMap nameChar ++ "\""

def keyText (key : Key) : Text := Text.join "." (key.map nameText)

end ScopeLint.Toml
