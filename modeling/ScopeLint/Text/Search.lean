import ScopeLint.Text.Utf8

/-!
Places in a text: where its characters start, and where a part occurs first. All offsets count
bytes.
-/

namespace ScopeLint.Text

def placedFrom (offset : Nat) : List Piece → List (Nat × Piece)
  | [] => []
  | piece :: rest => (offset, piece) :: placedFrom (offset + piece.bytes.length) rest

def placed (text : Text) : List (Nat × Piece) := placedFrom 0 text.pieces

/-- The offsets at which a character starts, and the end of the text. -/
def stops (text : Text) : List Nat := text.placed.map Prod.fst ++ [text.length]

/-- How many bytes a character takes when it is written. For a byte that decodes to nothing these
are the bytes of U+FFFD. -/
def written (piece : Piece) : Nat := (ofChar piece.char).length

/-- The offsets behind the characters of a text as they would be written. -/
def ends (text : Text) : List Nat := text.placed.map fun (offset, piece) => offset + written piece

def indexOf? (text part : Text) : Option Nat :=
  if startsWith text part then some 0
  else match text with
    | [] => none
    | _ :: rest => (indexOf? rest part).map (· + 1)

end ScopeLint.Text
