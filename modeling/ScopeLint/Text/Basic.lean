/-!
Text as the bytes a file holds. A script, a path or a name may hold bytes that are no valid
encoding of any character, and positions are counted in bytes, so the list of bytes is the
carrier of every text in the project. Texts are ordered byte by byte.
-/

namespace ScopeLint

/-- Text is a list of bytes, most often the UTF-8 encoding of some characters. -/
abbrev Text := List UInt8

namespace Text

def ofString (string : String) : Text := string.toByteArray.data.toList

instance : Coe String Text := ⟨ofString⟩

def ofChar (char : Char) : Text := String.utf8EncodeChar char

def ofChars (chars : List Char) : Text := chars.flatMap ofChar

def ofNat (number : Nat) : Text := ofString (toString number)

def ofInt (number : Int) : Text := ofString (toString number)

def byte (char : Char) : UInt8 := char.toNat.toUInt8

def lineFeed : UInt8 := 0x0A

def carriageReturn : UInt8 := 0x0D

def startsWith (text start : Text) : Bool := start.isPrefixOf text

def endsWith (text ending : Text) : Bool := ending.isSuffixOf text

def after? : (text start : Text) → Option Text
  | text, [] => some text
  | [], _ :: _ => none
  | byte :: text, head :: start => if byte = head then after? text start else none

/-- The text without `ending`, or all of it when it does not end so. -/
def dropEnding (text ending : Text) : Text :=
  if endsWith text ending then text.take (text.length - ending.length) else text

def contains (text part : Text) : Bool :=
  match text with
  | [] => part.isEmpty
  | byte :: rest => part.isPrefixOf (byte :: rest) || contains rest part

def cut? (mark : UInt8) : Text → Option (Text × Text)
  | [] => none
  | byte :: rest =>
      if byte = mark then some ([], rest)
      else (cut? mark rest).map fun (before, behind) => (byte :: before, behind)

/-- The parts of a text before and after the first of some marks, the second one absent without a
mark. -/
def cutAt (text : Text) (marks : List UInt8) : Text × Option Text :=
  match text.dropWhile fun byte => !marks.contains byte with
  | [] => (text, none)
  | _ :: rest => (text.takeWhile fun byte => !marks.contains byte, some rest)

/-- The pieces between the occurrences of `mark`, one more than there are marks. -/
def splitOn (mark : UInt8) : Text → List Text
  | [] => [[]]
  | byte :: rest =>
      if byte = mark then [] :: splitOn mark rest
      else match splitOn mark rest with
        | [] => [[byte]]
        | piece :: pieces => (byte :: piece) :: pieces

def join (separator : Text) (texts : List Text) : Text :=
  (texts.intersperse separator).flatten

/-- The first occurrence of `part` replaced. A part that occurs nowhere changes nothing. -/
def replaceFirst (text part replacement : Text) : Text :=
  match after? text part with
  | some behind => replacement ++ behind
  | none =>
      match text with
      | [] => []
      | byte :: rest => byte :: replaceFirst rest part replacement

def trimBytes (marks : List UInt8) (text : Text) : Text :=
  ((text.dropWhile marks.contains).reverse.dropWhile marks.contains).reverse

/-- The bytes from offset `start` up to, not including, offset `stop`. -/
def slice (text : Text) (start stop : Nat) : Text := (text.drop start).take (stop - start)

def spaces (count : Nat) : Text := List.replicate count 0x20

/-- Padded with spaces on the right up to a width in bytes. -/
def padRight (width : Nat) (text : Text) : Text := text ++ spaces (width - text.length)

def padLeft (width : Nat) (text : Text) : Text := spaces (width - text.length) ++ text

/-- The order of texts: byte by byte, a shorter text before its continuations. -/
def le (left right : Text) : Bool := decide (left ≤ right)

def sort (texts : List Text) : List Text := texts.mergeSort le

/-- The mark that some editors put in front of a file: U+FEFF. -/
def byteOrderMark : Text := [0xEF, 0xBB, 0xBF]

def dropMark (text : Text) : Text := (after? text byteOrderMark).getD text

end Text

end ScopeLint
