import ScopeLint.Text.Hex
import ScopeLint.Text.Printable
import ScopeLint.Text.Utf8

/-!
Quoted text for messages: printable characters stand for themselves, the quote and the
backslash are escaped, and everything else is written as a short escape or by its number.
-/

namespace ScopeLint.Text

def shortEscape? (char : Char) : Option Char :=
  match char.toNat with
  | 0x07 => some 'a'
  | 0x08 => some 'b'
  | 0x0C => some 'f'
  | 0x0A => some 'n'
  | 0x0D => some 'r'
  | 0x09 => some 't'
  | 0x0B => some 'v'
  | _ => none

def escapeChar (quote char : Char) : Text :=
  if char = quote || char = '\\' then ofChars ['\\', char]
  else if isPrintable char then ofChar char
  else match shortEscape? char with
    | some letter => ofChars ['\\', letter]
    | none =>
        if char.toNat < 0x20 || char.toNat = 0x7F then ofString "\\x" ++ hex 2 char.toNat
        else if char.toNat < 0x10000 then ofString "\\u" ++ hex 4 char.toNat
        else ofString "\\U" ++ hex 8 char.toNat

def escapePiece (quote : Char) (piece : Piece) : Text :=
  if piece.isBad then ofString "\\x" ++ piece.bytes.flatMap fun byte => hex 2 byte.toNat
  else escapeChar quote piece.char

def quote (text : Text) : Text :=
  [0x22] ++ text.pieces.flatMap (escapePiece '"') ++ [0x22]

def quoteChar (char : Char) : Text := [0x27] ++ escapeChar '\'' char ++ [0x27]

end ScopeLint.Text
