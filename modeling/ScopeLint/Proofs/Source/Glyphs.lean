import ScopeLint.Proofs.Text.Utf8
import ScopeLint.Source.Glyph

/-!
Glyphs against the bytes they were read from. A run of glyphs in a source text starts and ends
at known bytes, and the text between these bytes is the run, once its carriage returns are left
out.
-/

namespace ScopeLint

namespace Text

def visible (text : Text) : List Char := text.chars.filter fun char => char ≠ '\r'

/-- The characters between two bytes of a source text, carriage returns left out. -/
def between (source : Text) (start stop : Int) : List Char :=
  (source.slice start.toNat stop.toNat).visible

def beyond (source : Text) (start : Int) : List Char := source.between start source.length

/-- Where the glyphs that are left of a source text start. -/
def placeOf (source : Text) (glyphs : List Glyph) : Location :=
  Cursor.location ⟨glyphs, source.stop⟩

end Text

namespace Glyph

variable {start : Location} {held : Nat} {pieces : List Piece} {glyph : Glyph}
  {glyphs front behind : List Glyph}

theorem stopOf_append (start : Location) (front behind : List Glyph) :
    stopOf start (front ++ behind) = stopOf (stopOf start front) behind := by
  induction front generalizing start with
  | nil => rfl
  | cons glyph rest induction => exact induction glyph.span.stop

theorem advance_byte (location : Location) (char : Char) (width : Nat) :
    (location.advance char width).byte = location.byte + width := by
  unfold Location.advance
  split <;> rfl

theorem start_of_locate (located : locate start held pieces = glyph :: glyphs) :
    glyph.span.start = start := by
  induction pieces generalizing held with
  | nil => simp [locate] at located
  | cons piece rest induction =>
      rw [locate] at located
      split at located
      next => exact induction located
      next =>
        rw [← (List.cons.inj located).1]

theorem map_char_locate (start : Location) (held : Nat) (pieces : List Piece) :
    (locate start held pieces).map char =
      (pieces.map Piece.char).filter fun char => char ≠ '\r' := by
  induction pieces generalizing start held with
  | nil => rfl
  | cons piece rest induction =>
      rw [locate]
      split
      next carriage => simp [carriage, induction]
      next visible => simp [visible, induction]

/-- Glyphs fall in two where the pieces do. What is held back for the first glyph stays so when
the cut is in front of it. -/
theorem locate_cut (cut : locate start held pieces = front ++ behind) :
    ∃ first second rest, pieces = first ++ second ∧ (rest = 0 ∨ front = [] ∧ rest = held) ∧
      locate (stopOf start front) rest second = behind ∧
      (stopOf start front).byte + rest = start.byte + held + (Text.ofPieces first).length := by
  induction pieces generalizing start held front with
  | nil =>
      obtain ⟨rfl, rfl⟩ := List.append_eq_nil_iff.mp cut.symm
      exact ⟨[], [], held, rfl, .inr ⟨rfl, rfl⟩, rfl, by simp [stopOf, Text.ofPieces]⟩
  | cons piece more induction =>
      cases front with
      | nil =>
          exact ⟨[], piece :: more, held, rfl, .inr ⟨rfl, rfl⟩, cut, by simp [stopOf, Text.ofPieces]⟩
      | cons glyph front =>
          rw [locate] at cut
          split at cut
          next carriage =>
            obtain ⟨first, second, rest, split, keeps, located, bytes⟩ := induction cut
            refine ⟨piece :: first, second, rest, by rw [split]; rfl, ?_, located, ?_⟩
            · exact .inl (keeps.resolve_right (by simp))
            · rw [bytes, Text.ofPieces_cons, List.length_append]
              omega
          next visible =>
            rw [List.cons_append] at cut
            obtain ⟨rfl, cutBehind⟩ := List.cons.inj cut
            obtain ⟨first, second, rest, split, keeps, located, bytes⟩ := induction cutBehind
            -- Behind a glyph nothing is held back any more.
            have zero : rest = 0 := keeps.elim id And.right
            refine ⟨piece :: first, second, rest, by rw [split]; rfl, .inl zero, located, ?_⟩
            rw [stopOf, bytes, advance_byte, Text.ofPieces_cons, List.length_append]
            omega

end Glyph

namespace Text

variable {source : Text} {before middle left : List Glyph}

theorem placeOf_cons (source : Text) (glyph : Glyph) (rest : List Glyph) :
    source.placeOf (glyph :: rest) = glyph.span.start := rfl

theorem placeOf_eq (cut : source.glyphs = before ++ left) :
    source.placeOf left = Glyph.stopOf .start before := by
  cases left with
  | nil =>
      rw [List.append_nil] at cut
      exact congrArg (Glyph.stopOf .start) cut
  | cons glyph rest =>
      obtain ⟨_, _, _, -, -, located, -⟩ := Glyph.locate_cut cut
      exact Glyph.start_of_locate located

theorem glyphs_cut (cut : source.glyphs = before ++ (middle ++ left)) :
    ∃ first second third : List Piece, source.pieces = first ++ (second ++ third) ∧
      (source.placeOf (middle ++ left)).byte = (ofPieces first).length ∧
      (source.placeOf left).byte = (ofPieces first).length + (ofPieces second).length ∧
      (second.map Piece.char).filter (fun char => char ≠ '\r') = middle.map Glyph.char ∧
      (third.map Piece.char).filter (fun char => char ≠ '\r') = left.map Glyph.char := by
  obtain ⟨first, pieces, rest, split, keeps, located, bytes⟩ := Glyph.locate_cut cut
  have zero : rest = 0 := keeps.elim id And.right
  rw [zero] at located bytes
  obtain ⟨second, third, more, splitMore, noneMore, locatedMore, bytesMore⟩ :=
    Glyph.locate_cut located
  have zeroMore : more = 0 := noneMore.elim id And.right
  rw [zeroMore] at locatedMore bytesMore
  have behind := Glyph.map_char_locate (Glyph.stopOf (Glyph.stopOf .start before) middle) 0 third
  rw [locatedMore] at behind
  have both := Glyph.map_char_locate (Glyph.stopOf .start before) 0 pieces
  rw [located, splitMore, List.map_append, List.map_append, List.filter_append, behind] at both
  refine ⟨first, second, third, by rw [split, splitMore], ?_, ?_, ?_, behind.symm⟩
  · rw [placeOf_eq cut]
    simpa [Location.start] using bytes
  · rw [← List.append_assoc] at cut
    rw [placeOf_eq cut, Glyph.stopOf_append]
    have zeroByte : Location.start.byte = 0 := rfl
    omega
  · exact (List.append_cancel_right both).symm

theorem visible_ofPieces {pieces : List Piece} (same : (ofPieces pieces).pieces = pieces) :
    visible (ofPieces pieces) = (pieces.map Piece.char).filter fun char => char ≠ '\r' := by
  rw [visible, chars, same]

theorem exists_cut (within : middle ++ left <:+ source.glyphs) :
    ∃ first second third : Text, source = first ++ (second ++ third) ∧
      (source.placeOf (middle ++ left)).byte = first.length ∧
      (source.placeOf left).byte = first.length + second.length ∧
      second.visible = middle.map Glyph.char ∧ third.visible = left.map Glyph.char := by
  obtain ⟨before, cut⟩ := within
  obtain ⟨first, second, third, split, start, stop, shown, shownBehind⟩ := glyphs_cut cut.symm
  obtain ⟨whole, -, rest⟩ := pieces_cut split
  obtain ⟨inner, same, sameBehind⟩ := pieces_cut rest
  refine ⟨ofPieces first, ofPieces second, ofPieces third, by rw [← inner, ← whole], start, stop,
    ?_, ?_⟩
  · rw [visible_ofPieces same, shown]
  · rw [visible_ofPieces sameBehind, shownBehind]

theorem between_placeOf (within : middle ++ left <:+ source.glyphs) :
    source.between (source.placeOf (middle ++ left)).byte (source.placeOf left).byte =
      middle.map Glyph.char := by
  obtain ⟨first, second, third, split, start, stop, shown, -⟩ := exists_cut within
  have slice : source.slice first.length (first.length + second.length) = second := by
    rw [split]
    simp [Text.slice]
  rw [between, start, stop, ← Int.natCast_add, Int.toNat_natCast, Int.toNat_natCast, slice, shown]

theorem beyond_placeOf (within : left <:+ source.glyphs) :
    source.beyond (source.placeOf left).byte = left.map Glyph.char := by
  have cut : [] ++ left <:+ source.glyphs := within
  obtain ⟨first, second, third, split, -, stop, -, shown⟩ := exists_cut cut
  have slice : source.slice (first.length + second.length) source.length = third := by
    rw [split, Text.slice, ← List.append_assoc, ← List.length_append, List.drop_left]
    apply List.take_of_length_le
    simp only [List.length_append]
    omega
  rw [beyond, between, stop, ← Int.natCast_add, Int.toNat_natCast, Int.toNat_natCast, slice, shown]

theorem placeOf_le (within : middle ++ left <:+ source.glyphs) :
    (source.placeOf (middle ++ left)).byte ≤ (source.placeOf left).byte := by
  obtain ⟨first, second, third, -, start, stop, -⟩ := exists_cut within
  omega

theorem placeOf_lt (within : middle ++ left <:+ source.glyphs) (nonempty : middle ≠ []) :
    (source.placeOf (middle ++ left)).byte < (source.placeOf left).byte := by
  obtain ⟨first, second, third, -, start, stop, shown, -⟩ := exists_cut within
  have bytes : second.length ≠ 0 := by
    intro empty
    rw [List.length_eq_zero_iff.mp empty] at shown
    exact nonempty (List.map_eq_nil_iff.mp shown.symm)
  omega

theorem placeOf_le_length (within : left <:+ source.glyphs) :
    (source.placeOf left).byte ≤ source.length := by
  have cut : [] ++ left <:+ source.glyphs := within
  obtain ⟨first, second, third, split, -, stop, -⟩ := exists_cut cut
  rw [stop, split]
  simp only [List.length_append]
  omega

theorem stop_eq_placeOf {glyph : Glyph} (within : glyph :: left <:+ source.glyphs) :
    glyph.span.stop = source.placeOf left := by
  obtain ⟨before, cut⟩ := within
  have cutBehind : source.glyphs = before ++ [glyph] ++ left := by
    rw [← cut, List.append_assoc]
    rfl
  rw [placeOf_eq cutBehind, Glyph.stopOf_append]
  rfl

theorem stopOf_eq_placeOf {glyph : Glyph} (within : glyph :: (middle ++ left) <:+ source.glyphs) :
    Glyph.stopOf glyph.span.stop middle = source.placeOf left := by
  induction middle generalizing glyph with
  | nil => exact stop_eq_placeOf within
  | cons next rest induction => exact induction ((List.suffix_cons _ _).trans within)

theorem placeOf_glyphs (source : Text) : source.placeOf source.glyphs = .start :=
  placeOf_eq (List.nil_append source.glyphs).symm

/-- Where the part of a source text in front of some glyphs ends. Carriage returns at the end of
the text belong to no glyph and count as part of what is in front of it. -/
def edgeOf (source : Text) : List Glyph → Int
  | [] => source.length
  | glyph :: rest => (source.placeOf (glyph :: rest)).byte

theorem placeOf_le_edgeOf (within : middle ++ left <:+ source.glyphs) :
    (source.placeOf (middle ++ left)).byte ≤ source.edgeOf left := by
  cases left with
  | nil => exact placeOf_le_length within
  | cons glyph rest => exact placeOf_le within

theorem between_edgeOf (within : middle ++ left <:+ source.glyphs) :
    source.between (source.placeOf (middle ++ left)).byte (source.edgeOf left) =
      middle.map Glyph.char := by
  cases left with
  | nil =>
      rw [List.append_nil] at within ⊢
      exact beyond_placeOf within
  | cons glyph rest => exact between_placeOf within

theorem beyond_edgeOf (within : left <:+ source.glyphs) :
    source.beyond (source.edgeOf left) = left.map Glyph.char := by
  cases left with
  | nil => simp [beyond, between, edgeOf, Text.slice, visible, chars, pieces, Utf8.piecesFrom]
  | cons glyph rest => exact beyond_placeOf within

theorem between_glyph {glyph : Glyph} (within : glyph :: left <:+ source.glyphs) :
    source.between glyph.span.start.byte (source.placeOf left).byte = [glyph.char] := by
  have cut : [glyph] ++ left <:+ source.glyphs := within
  have text := between_placeOf cut
  rw [List.singleton_append, placeOf_cons] at text
  exact text

theorem start_lt_placeOf {glyph : Glyph} {rest : List Glyph}
    (within : glyph :: rest <:+ source.glyphs) (behind : left <:+ rest) :
    glyph.span.start.byte < (source.placeOf left).byte := by
  obtain ⟨front, rfl⟩ := behind
  have cut : glyph :: front ++ left <:+ source.glyphs := within
  have later := placeOf_lt cut (List.cons_ne_nil _ _)
  rw [List.cons_append, placeOf_cons] at later
  exact later

end Text

end ScopeLint
