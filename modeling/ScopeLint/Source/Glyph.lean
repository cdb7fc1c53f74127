import ScopeLint.Source.Location
import ScopeLint.Text.Utf8

/-!
Source text as located characters. Carriage returns are not characters of their own: each one
belongs to the span of the character behind it, so a line break reads as one line feed whatever
its spelling, and trailing carriage returns belong to nothing. The spans follow one another
without gaps.
-/

namespace ScopeLint

structure Glyph where
  char : Char
  span : Span
  deriving DecidableEq, Repr

namespace Glyph

/-- Locates decoded characters. The next one starts at `start`, and `held` bytes of carriage
returns have been passed since then. -/
def locate : (start : Location) → (held : Nat) → List Piece → List Glyph
  | _, _, [] => []
  | start, held, piece :: rest =>
      let width := held + piece.bytes.length
      if piece.char = '\r' then locate start width rest
      else
        let stop := start.advance piece.char width
        ⟨piece.char, start, stop⟩ :: locate stop 0 rest

/-- The location behind the last of some glyphs that follow `start`. -/
def stopOf (start : Location) : List Glyph → Location
  | [] => start
  | glyph :: rest => stopOf glyph.span.stop rest

end Glyph

namespace Text

def glyphs (source : Text) : List Glyph := Glyph.locate .start 0 source.pieces

def stop (source : Text) : Location := Glyph.stopOf .start source.glyphs

end Text

/-- A reading position: the characters still to come, and where the last of them ends. -/
structure Cursor where
  rest : List Glyph
  stop : Location

namespace Cursor

def ofText (source : Text) : Cursor := ⟨source.glyphs, source.stop⟩

def peek (cursor : Cursor) : Option Char := cursor.rest.head?.map Glyph.char

def peekSecond (cursor : Cursor) : Option Char := cursor.rest.tail.head?.map Glyph.char

/-- Where the next character starts, or where the text ends. -/
def location (cursor : Cursor) : Location :=
  match cursor.rest with
  | [] => cursor.stop
  | glyph :: _ => glyph.span.start

def next? (cursor : Cursor) : Option (Glyph × Cursor) :=
  match cursor.rest with
  | [] => none
  | glyph :: rest => some (glyph, { cursor with rest })

end Cursor

end ScopeLint
