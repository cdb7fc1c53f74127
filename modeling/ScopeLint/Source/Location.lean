import ScopeLint.Text.Basic

/-!
Places in a source text. A location counts bytes from zero and lines and columns from one; the
columns count characters. Locations may also come from outside, where nothing bounds them, so
the counts are integers and slicing checks them.
-/

namespace ScopeLint

structure Location where
  byte : Int
  line : Int
  col : Int
  deriving DecidableEq, Repr, Inhabited

namespace Location

def start : Location := ⟨0, 1, 1⟩

def zero : Location := ⟨0, 0, 0⟩

def advance (location : Location) (char : Char) (width : Nat) : Location :=
  if char = '\n' then ⟨location.byte + width, location.line + 1, 1⟩
  else ⟨location.byte + width, location.line, location.col + 1⟩

def text (location : Location) : Text :=
  Text.ofInt location.line ++ ":" ++ Text.ofInt location.col

def annotate (location : Location) (what : Text) : Text := location.text ++ ": " ++ what

def annotateIn (location : Location) (file what : Text) : Text :=
  file ++ ":" ++ location.annotate what

end Location

/-- The text from `start` up to, not including, `stop`. -/
structure Span where
  start : Location
  stop : Location
  deriving DecidableEq, Repr, Inhabited

namespace Span

def zero : Span := ⟨.zero, .zero⟩

def through (left right : Span) : Span := ⟨left.start, right.stop⟩

/-- The width in bytes, negative when the ends are crossed. -/
def width (span : Span) : Int := span.stop.byte - span.start.byte

/-- The bytes that the span covers, none when it does not lie within the source. -/
def slice (span : Span) (source : Text) : Text :=
  if span.start.byte < 0 || span.stop.byte > source.length || span.start.byte > span.stop.byte
  then []
  else source.slice span.start.byte.toNat span.stop.byte.toNat

def text (span : Span) : Text := span.start.text ++ "-" ++ span.stop.text

end Span

end ScopeLint
