import ScopeLint.Text.Ranges
import ScopeLint.Text.Utf8

/-!
Blank characters in two senses. `isBlank` takes in every separator of the character database
together with the control characters that move the position; `isLineBlank` is the short ASCII
list that the line patterns use. Trimming and splitting go by the first.
-/

namespace ScopeLint.Text

/-- Ranges of the blank characters beyond ASCII, in increasing order. -/
def blankRanges : List (Nat × Nat) :=
  [(0x85, 0x85), (0xA0, 0xA0), (0x1680, 0x1680), (0x2000, 0x200A), (0x2028, 0x2029), (0x202F, 0x202F),
   (0x205F, 0x205F), (0x3000, 0x3000)]

def isAsciiBlank (char : Char) : Bool :=
  char = ' ' || ('\t' ≤ char && char ≤ '\r')

def isBlank (char : Char) : Bool :=
  if char.toNat < 0x80 then isAsciiBlank char else inRanges blankRanges char.toNat

/-- The bytes that count as blank in line patterns: tab, line feed, form feed, carriage return
and space. -/
def isLineBlank (byte : UInt8) : Bool :=
  byte = 0x20 || byte = 0x09 || byte = 0x0A || byte = 0x0C || byte = 0x0D

def trimStart (text : Text) : Text :=
  ofPieces (text.pieces.dropWhile fun piece => isBlank piece.char)

def trimEnd (text : Text) : Text :=
  ofPieces (text.pieces.reverse.dropWhile fun piece => isBlank piece.char).reverse

def trim (text : Text) : Text := trimEnd (trimStart text)

/-- The blank-separated words of decoded text, with the word being read in front. -/
def wordsFrom : (word : List Piece) → List Piece → List Text
  | word, [] => if word.isEmpty then [] else [ofPieces word]
  | word, piece :: rest =>
      if isBlank piece.char then
        if word.isEmpty then wordsFrom [] rest else ofPieces word :: wordsFrom [] rest
      else wordsFrom (word ++ [piece]) rest

/-- The words of a text: its longest runs of characters that are not blank. -/
def words (text : Text) : List Text := wordsFrom [] text.pieces

end ScopeLint.Text
