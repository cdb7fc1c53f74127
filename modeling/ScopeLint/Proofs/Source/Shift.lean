import ScopeLint.Proofs.Source.Glyphs
import ScopeLint.Proofs.Text.Ascii
import ScopeLint.Source.Fault

/-!
Text moved down behind other lines. A location behind a line break keeps its column and moves by the
bytes and lines in front of it, so the glyphs of a text are, moved down, those that follow the line
break when the text is put behind another one.
-/

namespace ScopeLint

/-- How far a text is moved down: bytes and whole lines. -/
structure Offset where
  bytes : Int
  lines : Int

def Offset.zero : Offset := ⟨0, 0⟩

def Location.shift (offset : Offset) (location : Location) : Location :=
  ⟨location.byte + offset.bytes, location.line + offset.lines, location.col⟩

def Span.shift (offset : Offset) (span : Span) : Span :=
  ⟨span.start.shift offset, span.stop.shift offset⟩

def Glyph.shift (offset : Offset) (glyph : Glyph) : Glyph := ⟨glyph.char, glyph.span.shift offset⟩

def SyntaxError.shift (offset : Offset) (error : SyntaxError) : SyntaxError :=
  ⟨error.fault, error.place.shift offset⟩

/-- The same outcome for a text that is moved down: a fault moves along, and what was read changes
as given. -/
def relocate {Value Other : Type} (offset : Offset) (move : Value → Other) :
    Except SyntaxError Value → Except SyntaxError Other
  | .error error => .error (error.shift offset)
  | .ok value => .ok (move value)

/-- One thing read after another: each may be moved by itself. -/
theorem relocate_bind {Value Other Next NextOther : Type} {offset : Offset} {move : Value → Other}
    {moveNext : Next → NextOther} {outcome : Except SyntaxError Value}
    {moved : Except SyntaxError Other} {next : Value → Except SyntaxError Next}
    {nextMoved : Other → Except SyntaxError NextOther} (first : moved = relocate offset move outcome)
    (second : ∀ value, outcome = .ok value →
      nextMoved (move value) = relocate offset moveNext (next value)) :
    (moved >>= nextMoved) = relocate offset moveNext (outcome >>= next) := by
  cases outcome with
  | error error =>
      rw [first]
      rfl
  | ok value =>
      rw [first]
      exact second value rfl

theorem Location.shift_zero (location : Location) : location.shift .zero = location := by
  simp [Location.shift, Offset.zero]

theorem Span.shift_zero (span : Span) : span.shift .zero = span := by
  simp only [Span.shift, Location.shift_zero]

variable {offset : Offset}

theorem Location.shift_inj (left right : Location) :
    left.shift offset = right.shift offset ↔ left = right := by
  obtain ⟨leftByte, leftLine, leftCol⟩ := left
  obtain ⟨rightByte, rightLine, rightCol⟩ := right
  simp only [Location.shift, Location.mk.injEq]
  omega

theorem Location.shift_advance (location : Location) (char : Char) (width : Nat) :
    (location.shift offset).advance char width = (location.advance char width).shift offset := by
  unfold advance
  split
  · simp only [shift, Location.mk.injEq, and_true]
    omega
  · simp only [shift, Location.mk.injEq, and_true]
    omega

namespace Glyph

theorem locate_shift (start : Location) (held : Nat) (pieces : List Piece) :
    locate (start.shift offset) held pieces = (locate start held pieces).map (shift offset) := by
  induction pieces generalizing start held with
  | nil => rfl
  | cons piece rest induction =>
      simp only [locate]
      split
      next => exact induction start _
      next =>
        rw [Location.shift_advance, induction]
        rfl

theorem stopOf_shift (start : Location) (glyphs : List Glyph) :
    stopOf (start.shift offset) (glyphs.map (shift offset)) = (stopOf start glyphs).shift offset := by
  induction glyphs generalizing start with
  | nil => rfl
  | cons glyph rest induction => exact induction glyph.span.stop

theorem line_stopOf (start : Location) (held : Nat) (pieces : List Piece) :
    (stopOf start (locate start held pieces)).line =
      start.line + (pieces.map Piece.char).count '\n' := by
  induction pieces generalizing start held with
  | nil => simp [locate, stopOf]
  | cons piece rest induction =>
      simp only [locate]
      split
      next carriage =>
        rw [induction, List.map_cons, carriage, List.count_cons_of_ne (by decide)]
      next =>
        rw [stopOf, induction, List.map_cons, Location.advance]
        by_cases newline : piece.char = '\n'
        · rw [if_pos newline, newline, List.count_cons_self]
          push_cast
          omega
        · rw [if_neg newline, List.count_cons_of_ne newline]

/-- A line break starts behind the last glyph in front of it, with the carriage returns held back in
between, and the next line starts behind it. -/
theorem locate_line (start : Location) (held : Nat) (front behind : List Piece) (feed : Piece)
    (newline : feed.char = '\n') :
    let stop := stopOf start (locate start held front)
    let next : Location := ⟨start.byte + held + (Text.ofPieces front).length + feed.bytes.length,
      stop.line + 1, 1⟩
    locate start held (front ++ feed :: behind) =
      locate start held front ++ ⟨'\n', stop, next⟩ :: locate next 0 behind := by
  induction front generalizing start held with
  | nil =>
      have advanced : start.advance '\n' (held + feed.bytes.length) =
          ⟨start.byte + held + feed.bytes.length, start.line + 1, 1⟩ := by
        rw [Location.advance, if_pos rfl]
        simp only [Location.mk.injEq, and_true]
        omega
      simp [locate, stopOf, Text.ofPieces, advanced, newline]
  | cons piece rest induction =>
      rw [List.cons_append]
      simp only [locate]
      split
      next =>
        have later := induction start (held + piece.bytes.length)
        simp only [Text.ofPieces_cons, List.length_append] at later ⊢
        rw [later]
        have bytes : start.byte + ↑(held + piece.bytes.length) + ↑(Text.ofPieces rest).length +
            ↑feed.bytes.length = start.byte + ↑held +
              ↑(piece.bytes.length + (Text.ofPieces rest).length) + ↑feed.bytes.length := by
          omega
        rw [bytes]
      next =>
        have later := induction (start.advance piece.char (held + piece.bytes.length)) 0
        simp only [Text.ofPieces_cons, List.length_append, advance_byte] at later ⊢
        rw [later, List.cons_append, stopOf]
        have bytes : start.byte + ↑(held + piece.bytes.length) + ((0 : Nat) : Int) +
            ↑(Text.ofPieces rest).length + ↑feed.bytes.length = start.byte + ↑held +
              ↑(piece.bytes.length + (Text.ofPieces rest).length) + ↑feed.bytes.length := by
          omega
        rw [bytes]

end Glyph

namespace Text

def lineOffset (front : Text) : Offset := ⟨front.length + 1, front.count lineFeed + 1⟩

def lineEnd (front : Text) : Glyph :=
  ⟨'\n', front.stop, Location.start.shift front.lineOffset⟩

theorem pieces_line (front behind : Text) :
    (front ++ lineFeed :: behind).pieces = front.pieces ++ ⟨'\n', [lineFeed]⟩ :: behind.pieces :=
  pieces_mark (show IsAscii '\n' from ⟨by decide, by decide⟩) front behind

theorem glyphs_line (front behind : Text) :
    (front ++ lineFeed :: behind).glyphs =
      front.glyphs ++ front.lineEnd :: behind.glyphs.map (Glyph.shift front.lineOffset) := by
  have located := Glyph.locate_line .start 0 front.pieces behind.pieces ⟨'\n', [lineFeed]⟩ rfl
  have lines := Glyph.line_stopOf .start 0 front.pieces
  have counted : (front.pieces.map Piece.char).count '\n' = front.count lineFeed :=
    count_chars ⟨by decide, by decide⟩ front
  have next : (⟨Location.start.byte + (0 : Nat) + (ofPieces front.pieces).length +
      ([lineFeed] : Text).length,
      (Glyph.stopOf .start (Glyph.locate .start 0 front.pieces)).line + 1, 1⟩ : Location) =
        Location.start.shift front.lineOffset := by
    rw [lines, counted, ofPieces_pieces]
    simp only [Location.shift, lineOffset, Location.start, Location.mk.injEq, List.length_singleton,
      and_true]
    omega
  simp only [next] at located
  rw [Glyph.locate_shift] at located
  rw [glyphs, pieces_line, located]
  rfl

theorem stop_line (front behind : Text) :
    (front ++ lineFeed :: behind).stop = behind.stop.shift front.lineOffset := by
  rw [stop, glyphs_line, Glyph.stopOf_append, Glyph.stopOf]
  exact Glyph.stopOf_shift .start behind.glyphs

end Text

end ScopeLint
