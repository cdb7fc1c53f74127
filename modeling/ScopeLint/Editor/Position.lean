import ScopeLint.Source.Location
import ScopeLint.Text.Utf8

/-!
Positions as editors count them: lines and characters from zero, characters in 16-bit units, both
as 32-bit words.
-/

namespace ScopeLint

structure Position where
  line : Nat
  character : Nat
  deriving DecidableEq, Repr

namespace Position

def zero : Position := ⟨0, 0⟩

/-- How many 16-bit units a character takes. -/
def units (char : Char) : Nat := if char.toNat < 0x10000 then 1 else 2

def width (chars : List Char) : Nat := chars.foldr (fun char count => units char + count) 0

/-- The lowest 32 bits of a count. -/
def word (count : Nat) : Nat := count % 0x100000000

def lastLine (text : Text) : Text := (text.reverse.takeWhile (· ≠ Text.lineFeed)).reverse

/-- Where a location of a source text is for an editor. The character counts what stands before
the location on its line; a location on no line is at the start. -/
def ofLocation (source : Text) (location : Location) : Position :=
  if location.line ≤ 0 then zero
  else
    let line := lastLine (source.take location.byte.toNat)
    ⟨word (location.line - 1).toNat, word (width line.chars)⟩

end Position

structure Range where
  start : Position
  stop : Position
  deriving DecidableEq, Repr

namespace Range

def zero : Range := ⟨.zero, .zero⟩

def ofSpan (source : Text) (span : Span) : Range :=
  ⟨.ofLocation source span.start, .ofLocation source span.stop⟩

/-- Whether a position lies in a range. Both ends belong to it. -/
def contains (range : Range) (position : Position) : Bool :=
  range.start.line ≤ position.line && position.line ≤ range.stop.line
    && (position.line ≠ range.start.line || range.start.character ≤ position.character)
    && (position.line ≠ range.stop.line || position.character ≤ range.stop.character)

end Range

end ScopeLint
