import ScopeLint.Source.Glyph

/-!
Reading a source text one character at a time, with one character of lookahead. Bytes are decoded only
when a character is asked for. A character that has been looked at is held until it is taken; the one
behind it is decoded anew each time that somebody looks at it.
-/

namespace ScopeLint

/-- What is decoded of some bytes: the next character, if there is any, and the bytes behind it, which
start at `offset`. -/
structure Decoding where
  glyph : Option Glyph
  offset : Nat
  left : Text

/-- Decodes the next character of the bytes that start at `offset`. The character starts at `place`, in
front of the carriage returns that are passed on the way to it. -/
def Decoding.ofBytes (place : Location) (offset : Nat) : Text → Decoding
  | [] => ⟨none, offset, []⟩
  | first :: rest =>
      let piece := Utf8.lead first rest
      let behind := offset + piece.bytes.length
      let left := rest.drop (piece.bytes.length - 1)
      if piece.char = '\r' then ofBytes place behind left
      else ⟨some ⟨piece.char, place, { place.advance piece.char 0 with byte := behind }⟩, behind, left⟩
termination_by bytes => bytes.length
decreasing_by
  rw [List.length_drop, List.length_cons]
  omega

/-- A reader of a source text that may hold the next character. -/
structure Lookahead where
  /-- The bytes that are not decoded yet. -/
  left : Text
  /-- Where they start. Carriage returns at the end of the text are passed when they are met. -/
  offset : Nat
  /-- Where the last decoded character ends. -/
  place : Location
  /-- A character that has been looked at and not taken. -/
  held : Option Glyph

namespace Lookahead

def ofText (source : Text) : Lookahead := ⟨source, 0, .start, none⟩

def fill (ahead : Lookahead) : Lookahead :=
  match ahead.held with
  | some _ => ahead
  | none =>
      match Decoding.ofBytes ahead.place ahead.offset ahead.left with
      | ⟨some glyph, offset, left⟩ => ⟨left, offset, glyph.span.stop, some glyph⟩
      | ⟨none, offset, left⟩ => { ahead with left, offset }

def peek (ahead : Lookahead) : Option Char × Lookahead :=
  (ahead.fill.held.map Glyph.char, ahead.fill)

def peekSecond (ahead : Lookahead) : Option Char × Lookahead :=
  let filled := ahead.fill
  let second := filled.held.bind fun _ =>
    (Decoding.ofBytes filled.place filled.offset filled.left).glyph.map Glyph.char
  (second, filled)

def next (ahead : Lookahead) : Option Glyph × Lookahead :=
  (ahead.fill.held, { ahead.fill with held := none })

/-- Where the next character starts, or where the last one ends. -/
def location (ahead : Lookahead) : Location :=
  match ahead.held with
  | some glyph => glyph.span.start
  | none => ahead.place

inductive Call where
  | peek
  | second
  | next
  | location
  deriving DecidableEq, Repr

inductive Answer where
  | char (char : Option Char)
  | glyph (glyph : Option Glyph)
  | place (place : Location)
  deriving DecidableEq, Repr

def answer (ahead : Lookahead) : Call → Answer × Lookahead
  | .peek => (.char ahead.peek.1, ahead.peek.2)
  | .second => (.char ahead.peekSecond.1, ahead.peekSecond.2)
  | .next => (.glyph ahead.next.1, ahead.next.2)
  | .location => (.place ahead.location, ahead)

def after (ahead : Lookahead) (calls : List Call) : Lookahead :=
  calls.foldl (fun ahead call => (ahead.answer call).2) ahead

end Lookahead

end ScopeLint
