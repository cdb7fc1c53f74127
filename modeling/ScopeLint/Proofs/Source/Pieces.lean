import Mathlib.Logic.Basic
import ScopeLint.Proofs.Source.Glyphs
import ScopeLint.Proofs.Text.Ascii

/-!
Runs of glyphs against the pieces they were read from. Pieces that end with a character, not with a
carriage return, are located by themselves, so a run of glyphs can be cut out of a text and another
one put in its place.
-/

namespace ScopeLint

namespace Glyph

/-- Pieces of which none is held back for what follows them. -/
def Whole (pieces : List Piece) : Prop := ∀ last ∈ pieces.getLast?, last.char ≠ '\r'

theorem Whole.of_cons {piece next : Piece} {rest : List Piece} (whole : Whole (piece :: next :: rest)) :
    Whole (next :: rest) := by
  intro last head
  exact whole last (by simpa using head)

theorem Whole.cons {piece : Piece} {rest : List Piece} (whole : Whole rest) (nonempty : rest ≠ []) :
    Whole (piece :: rest) := by
  cases rest with
  | nil => exact absurd rfl nonempty
  | cons next rest =>
      intro last head
      exact whole last (by simpa using head)

theorem Whole.locate_ne_nil {pieces : List Piece} (whole : Whole pieces) (nonempty : pieces ≠ [])
    (start : Location) (held : Nat) : locate start held pieces ≠ [] := by
  intro empty
  have chars := map_char_locate start held pieces
  have hidden := whole _ (List.getLast?_eq_some_getLast nonempty)
  rw [empty, List.map_nil, eq_comm, List.filter_eq_nil_iff] at chars
  have shown := chars _ (List.mem_map_of_mem (List.getLast_mem nonempty))
  simp [hidden] at shown

theorem locate_append {pieces : List Piece} (whole : Whole pieces) (nonempty : pieces ≠ [])
    (start : Location) (held : Nat) (behind : List Piece) :
    locate start held (pieces ++ behind) = locate start held pieces ++
        locate (stopOf start (locate start held pieces)) 0 behind ∧
      (stopOf start (locate start held pieces)).byte =
        start.byte + held + (Text.ofPieces pieces).length := by
  induction pieces generalizing start held with
  | nil => exact absurd rfl nonempty
  | cons piece rest induction =>
      rw [List.cons_append, Text.ofPieces_cons, List.length_append]
      cases rest with
      | nil =>
          have visible : piece.char ≠ '\r' := whole piece rfl
          simp only [locate, if_neg visible, List.nil_append]
          refine ⟨rfl, ?_⟩
          simp only [stopOf, advance_byte, Text.ofPieces, List.flatMap_nil, List.length_nil]
          omega
      | cons next rest =>
          simp only [locate.eq_2 _ _ piece]
          split
          next =>
            obtain ⟨located, byte⟩ := induction whole.of_cons (List.cons_ne_nil _ _) start
              (held + piece.bytes.length)
            refine ⟨located, byte.trans ?_⟩
            omega
          next =>
            obtain ⟨located, byte⟩ := induction whole.of_cons (List.cons_ne_nil _ _)
              (start.advance piece.char (held + piece.bytes.length)) 0
            refine ⟨congrArg (List.cons _) located, byte.trans ?_⟩
            rw [advance_byte]
            omega

/-- Glyphs at the front of a text are those of whole pieces at its front. -/
theorem exists_whole {start : Location} {held : Nat} {pieces : List Piece}
    {passed left : List Glyph} (located : locate start held pieces = passed ++ left)
    (nonempty : passed ≠ []) :
    ∃ front behind, pieces = front ++ behind ∧ Whole front ∧ front ≠ [] ∧
      locate start held front = passed ∧ locate (stopOf start passed) 0 behind = left := by
  induction pieces generalizing start held passed with
  | nil => exact absurd (List.append_eq_nil_iff.mp located.symm).1 nonempty
  | cons piece rest induction =>
      rw [locate] at located
      split at located
      next carriage =>
        obtain ⟨front, behind, rfl, whole, more, same, later⟩ := induction located nonempty
        refine ⟨piece :: front, behind, rfl, whole.cons more, List.cons_ne_nil _ _, ?_, later⟩
        rw [locate, if_pos carriage]
        exact same
      next visible =>
        cases passed with
        | nil => exact absurd rfl nonempty
        | cons glyph passed =>
            obtain ⟨rfl, tail⟩ := List.cons.inj located
            cases passed with
            | nil =>
                refine ⟨[piece], rest, rfl, ?_, List.cons_ne_nil _ _, ?_, tail⟩
                · intro last head
                  obtain rfl := Option.some.inj head
                  exact visible
                · simp [locate, visible]
            | cons next passed =>
                obtain ⟨front, behind, rfl, whole, more, same, later⟩ :=
                  induction tail (List.cons_ne_nil _ _)
                refine ⟨piece :: front, behind, rfl, whole.cons more, List.cons_ne_nil _ _, ?_, later⟩
                rw [locate, if_neg visible]
                exact congrArg (List.cons _) same

theorem advance_col (location : Location) (char : Char) (width : Nat) :
    (location.advance char width).col = if char = '\n' then 1 else location.col + 1 := by
  unfold Location.advance
  split <;> rfl

/-- A place behind glyphs is in column one just if the last of them is a line break. -/
theorem col_stopOf {start : Location} (low : 1 ≤ start.col) (held : Nat) (pieces : List Piece) :
    1 ≤ (stopOf start (locate start held pieces)).col ∧
      (locate start held pieces ≠ [] → ((stopOf start (locate start held pieces)).col = 1 ↔
        ((locate start held pieces).map char).getLast? = some '\n')) := by
  induction pieces generalizing start held with
  | nil => exact ⟨low, fun empty => absurd rfl empty⟩
  | cons piece rest induction =>
      rw [locate]
      split
      next => exact induction low _
      next =>
        have next := advance_col start piece.char (held + piece.bytes.length)
        have lower : 1 ≤ (start.advance piece.char (held + piece.bytes.length)).col := by
          rw [next]
          split <;> omega
        obtain ⟨bound, ends⟩ := induction lower 0
        refine ⟨bound, fun _ => ?_⟩
        dsimp only
        rw [stopOf]
        cases more : locate (start.advance piece.char (held + piece.bytes.length)) 0 rest with
        | nil =>
            rw [stopOf, next, List.map_singleton, List.getLast?_singleton, Option.some.injEq]
            constructor
            · intro first
              split at first
              next newline => exact newline
              next => omega
            · intro newline
              exact if_pos newline
        | cons glyph glyphs =>
            rw [more] at ends
            rw [ends (List.cons_ne_nil _ _), List.map_cons, List.map_cons, List.map_cons,
              List.getLast?_cons_cons]

end Glyph

namespace Text

theorem ofPieces_append (front behind : List Piece) :
    ofPieces (front ++ behind) = ofPieces front ++ ofPieces behind := by
  simp [ofPieces]

/-- Glyphs that are left of a source text, and the pieces that they were read from. -/
structure Remains (source : Text) (glyphs : List Glyph) (pieces : List Piece) : Prop where
  within : glyphs <:+ source.glyphs
  located : Glyph.locate (source.placeOf glyphs) 0 pieces = glyphs
  split : ∃ before, source.pieces = before ++ pieces ∧
    (source.placeOf glyphs).byte = (ofPieces before).length
  col : 1 ≤ (source.placeOf glyphs).col

theorem remains_glyphs (source : Text) : source.Remains source.glyphs source.pieces where
  within := List.suffix_refl _
  located := by rw [placeOf_glyphs]; rfl
  split := ⟨[], rfl, by rw [placeOf_glyphs]; rfl⟩
  col := by rw [placeOf_glyphs]; decide

theorem Remains.exists_front {source : Text} {glyphs : List Glyph} {pieces : List Piece}
    (remains : source.Remains glyphs pieces) :
    ∃ front : Text, source = front ++ ofPieces pieces ∧
      (source.placeOf glyphs).byte = front.length := by
  obtain ⟨before, split, byte⟩ := remains.split
  refine ⟨ofPieces before, ?_, byte⟩
  rw [← ofPieces_append, ← split, ofPieces_pieces]

theorem stopOf_passed {source : Text} {passed left : List Glyph}
    (within : passed ++ left <:+ source.glyphs) (nonempty : passed ≠ []) :
    Glyph.stopOf (source.placeOf (passed ++ left)) passed = source.placeOf left := by
  cases passed with
  | nil => exact absurd rfl nonempty
  | cons glyph passed => exact stopOf_eq_placeOf within

/-- The glyphs of a run and the text under them are those of whole pieces. -/
theorem Remains.cut {source : Text} {passed left : List Glyph} {pieces : List Piece}
    (remains : source.Remains (passed ++ left) pieces) (nonempty : passed ≠ []) :
    ∃ front behind, pieces = front ++ behind ∧ Glyph.Whole front ∧ front ≠ [] ∧
      Glyph.locate (source.placeOf (passed ++ left)) 0 front = passed ∧
      source.slice (source.placeOf (passed ++ left)).byte.toNat (source.placeOf left).byte.toNat =
        ofPieces front ∧ source.Remains left behind := by
  obtain ⟨front, behind, rfl, whole, more, same, later⟩ :=
    Glyph.exists_whole remains.located nonempty
  have stop := stopOf_passed remains.within nonempty
  obtain ⟨before, split, byte⟩ := remains.split
  have width := (Glyph.locate_append whole more (source.placeOf (passed ++ left)) 0 behind).2
  have low := (Glyph.col_stopOf remains.col 0 front).1
  rw [same, stop] at width low
  rw [stop] at later
  refine ⟨front, behind, rfl, whole, more, same, ?_, ?_, later, ⟨before ++ front, ?_, ?_⟩, low⟩
  · have bytes : source = ofPieces before ++ (ofPieces front ++ ofPieces behind) := by
      rw [← ofPieces_pieces source, split]
      simp [ofPieces]
    have offset : (source.placeOf left).byte.toNat =
        (ofPieces before).length + (ofPieces front).length := by omega
    rw [byte, offset, Int.toNat_natCast, bytes]
    simp [Text.slice]
  · exact (List.suffix_append _ _).trans remains.within
  · rw [split, List.append_assoc]
  · rw [width, byte, ofPieces_append, List.length_append]
    omega

/-- What is left behind a run of glyphs starts a line just if the run ends with a line break. -/
theorem Remains.col_iff {source : Text} {passed left : List Glyph} {pieces : List Piece}
    (remains : source.Remains (passed ++ left) pieces) (more : passed ≠ []) :
    (source.placeOf left).col = 1 ↔ (passed.map Glyph.char).getLast? = some '\n' := by
  obtain ⟨front, behind, -, -, -, located, -⟩ := remains.cut more
  have ends := (Glyph.col_stopOf remains.col 0 front).2
  rw [located, stopOf_passed remains.within more] at ends
  exact ends more

theorem Remains.drop {source : Text} {passed left : List Glyph} {pieces : List Piece}
    (remains : source.Remains (passed ++ left) pieces) :
    ∃ front behind, pieces = front ++ behind ∧ source.Remains left behind := by
  cases passed with
  | nil => exact ⟨[], pieces, rfl, remains⟩
  | cons glyph passed =>
      obtain ⟨front, behind, split, -, -, -, -, later⟩ := remains.cut (List.cons_ne_nil _ _)
      exact ⟨front, behind, split, later⟩

/-- An ASCII glyph was read from its byte and the carriage returns in front of it. -/
theorem Remains.exists_mark {source : Text} {glyph : Glyph} {rest : List Glyph}
    {pieces : List Piece} (remains : source.Remains (glyph :: rest) pieces)
    (ascii : IsAscii glyph.char) :
    ∃ returns mark behind, pieces = returns ++ mark :: behind ∧
      (∀ piece ∈ returns, piece.char = '\r') ∧ mark.char = glyph.char ∧
      source.slice glyph.span.start.byte.toNat (glyph.span.stop.byte.toNat - 1) = ofPieces returns ∧
      source.Remains rest behind := by
  have stop := stop_eq_placeOf remains.within
  have single : glyph :: rest = [glyph] ++ rest := rfl
  rw [single] at remains
  obtain ⟨front, behind, rfl, whole, more, located, -, later⟩ := remains.cut (List.cons_ne_nil _ _)
  have chars := Glyph.map_char_locate (source.placeOf ([glyph] ++ rest)) 0 front
  obtain ⟨returns, mark, last⟩ := (List.eq_nil_or_concat front).resolve_left more
  obtain rfl := last.trans (List.concat_eq_append ..)
  have visible : mark.char ≠ '\r' := whole mark (by simp)
  have apart : [] ++ [glyph.char] =
      (returns.map Piece.char).filter (fun char => char ≠ '\r') ++ [mark.char] := by
    rw [located] at chars
    simpa [visible] using chars
  obtain ⟨unseen, same⟩ := List.append_inj' apart rfl
  obtain same : glyph.char = mark.char := List.singleton_inj.mp same
  refine ⟨returns, mark, behind, by simp, ?_, same.symm, ?_, later⟩
  · intro piece member
    have hidden := List.filter_eq_nil_iff.mp unseen.symm piece.char (List.mem_map_of_mem member)
    simpa using hidden
  · obtain ⟨before, split, start⟩ := remains.exists_front
    obtain ⟨through, splitRest, startRest⟩ := later.exists_front
    have width : mark.bytes.length = 1 := by
      rw [same] at ascii
      obtain ⟨outer, cut, -⟩ := remains.split
      have member : mark ∈ source.pieces := by simp [cut]
      rw [bytes_of_ascii member ascii]
      rfl
    have total := congrArg List.length (split.symm.trans splitRest)
    simp only [ofPieces_append, List.append_assoc, List.length_append] at split total
    have one : (ofPieces [mark]).length = 1 := by simpa [ofPieces] using width
    change glyph.span.start.byte = _ at start
    have offset : glyph.span.stop.byte.toNat - 1 = before.length + (ofPieces returns).length := by
      rw [stop, startRest]
      omega
    rw [offset, start, Int.toNat_natCast, split]
    simp [Text.slice]

/-- The text in front of some glyphs ends where they start, and with a character of its own. -/
theorem exists_before {source : Text} {left : List Glyph} (within : left <:+ source.glyphs) :
    ∃ before behind : Text, source = before ++ behind ∧
      source.pieces = before.pieces ++ behind.pieces ∧ before.stop = source.placeOf left ∧
      (source.placeOf left).byte = before.length ∧ ¬ [carriageReturn] <:+ before := by
  obtain ⟨passed, cut⟩ := within
  have remains := source.remains_glyphs
  have first := source.placeOf_glyphs
  rw [← cut] at remains first
  rcases eq_or_ne passed [] with rfl | nonempty
  · rw [List.nil_append] at first
    exact ⟨[], source, rfl, rfl, first.symm, by rw [first]; rfl, by simp⟩
  · obtain ⟨front, behind, split, whole, -, located, -, later⟩ := remains.cut nonempty
    obtain ⟨other, same, byte⟩ := later.split
    obtain ⟨bytes, decoded, decodedBehind⟩ := pieces_cut split
    have stop := stopOf_passed remains.within nonempty
    obtain rfl : other = front := List.append_cancel_right (same.symm.trans split)
    rw [first] at located stop
    refine ⟨ofPieces other, ofPieces behind, bytes, ?_, ?_, byte, ?_⟩
    · rw [decoded, decodedBehind, split]
    · rw [Text.stop, glyphs, decoded, located, stop]
    · rintro ⟨rest, ends⟩
      have apart : pieces (rest ++ [carriageReturn]) = pieces rest ++ [⟨'\r', [carriageReturn]⟩] :=
        pieces_mark (show IsAscii '\r' from ⟨by decide, by decide⟩) rest []
      rw [ends, decoded] at apart
      exact whole ⟨'\r', [carriageReturn]⟩ (by rw [apart]; simp) rfl

end Text

end ScopeLint
