import ScopeLint.Allow
import ScopeLint.Proofs.Source.Pieces
import ScopeLint.Proofs.Source.Shift
import ScopeLint.Proofs.Text.Split
import ScopeLint.Proofs.Tree.Respaced

/-!
Texts with a carriage return in front of every line feed. The carriage returns belong to the line
breaks, so the glyphs are the same, each as many bytes further on as there are line breaks in front
of it.
-/

namespace ScopeLint

namespace Text

def withReturns (text : Text) : Text :=
  text.flatMap fun byte => if byte = lineFeed then [carriageReturn, byte] else [byte]

theorem withReturns_append (front behind : Text) :
    (front ++ behind).withReturns = front.withReturns ++ behind.withReturns := by
  simp [withReturns]

theorem withReturns_line (front behind : Text) :
    (front ++ lineFeed :: behind).withReturns =
      front.withReturns ++ [carriageReturn] ++ lineFeed :: behind.withReturns := by
  simp [withReturns]

theorem withReturns_of_line {text : Text} (inLine : lineFeed ∉ text) : text.withReturns = text := by
  induction text with
  | nil => rfl
  | cons byte rest induction =>
      rw [List.mem_cons, not_or] at inLine
      rw [← List.singleton_append, withReturns_append, induction inLine.2]
      simp [withReturns, Ne.symm inLine.1]

theorem length_withReturns (text : Text) :
    text.withReturns.length = text.length + text.count lineFeed := by
  induction text with
  | nil => rfl
  | cons byte rest induction =>
      rw [← List.singleton_append, withReturns_append, List.length_append, induction,
        List.length_append, List.count_append]
      by_cases line : byte = lineFeed <;> simp [withReturns, line] <;> omega

/-- A text without the byte of an ASCII character does not have the character either. -/
theorem char_ne_of_not_mem {char : Char} (ascii : IsAscii char) {text : Text}
    (absent : byte char ∉ text) : ∀ piece ∈ text.pieces, piece.char ≠ char := by
  have zero : text.chars.count char = 0 := by
    rw [count_chars ascii, List.count_eq_zero_of_not_mem absent]
  intro piece member same
  exact List.count_eq_zero.mp zero (List.mem_map.mpr ⟨piece, member, same⟩)

def respell (piece : Piece) : List Piece :=
  if piece.char = '\n' then [⟨'\r', [carriageReturn]⟩, piece] else [piece]

theorem pieces_withReturns (text : Text) :
    text.withReturns.pieces = text.pieces.flatMap respell := by
  by_cases line : lineFeed ∈ text
  · obtain ⟨front, behind, rfl⟩ := List.append_of_mem line
    have returns : (withReturns front ++ [carriageReturn]).pieces =
        (withReturns front).pieces ++ [⟨'\r', [carriageReturn]⟩] :=
      pieces_mark (show IsAscii '\r' from ⟨by decide, by decide⟩) (withReturns front) []
    rw [withReturns_line, pieces_line, pieces_line, returns, pieces_withReturns front,
      pieces_withReturns behind]
    simp [respell]
  · rw [withReturns_of_line line]
    have inLine : ∀ piece ∈ text.pieces, piece.char ≠ '\n' :=
      char_ne_of_not_mem ⟨by decide, by decide⟩ line
    have same : ∀ piece ∈ text.pieces, respell piece = [piece] := by
      intro piece member
      exact if_neg (inLine piece member)
    rw [List.flatMap_congr same, List.flatMap_singleton']
termination_by text.length

end Text

/-- A place when each line break in front of it is one byte wider. -/
def Location.widen (place : Location) : Location :=
  ⟨place.byte + (place.line - 1), place.line, place.col⟩

def Glyph.widen (glyph : Glyph) : Glyph :=
  ⟨glyph.char, glyph.span.start.widen, glyph.span.stop.widen⟩

theorem Location.widen_advance_line (place : Location) (width : Nat) :
    place.widen.advance '\n' (1 + width) = (place.advance '\n' width).widen := by
  simp only [widen, advance, if_pos, Location.mk.injEq, and_true]
  omega

theorem Location.widen_advance {char : Char} (inLine : char ≠ '\n') (place : Location) (width : Nat) :
    place.widen.advance char width = (place.advance char width).widen := by
  simp only [widen, advance, if_neg inLine, Location.mk.injEq, and_true]
  omega

namespace Glyph

theorem locate_respell {pieces : List Piece} (plain : ∀ piece ∈ pieces, piece.char ≠ '\r')
    (start : Location) :
    locate start.widen 0 (pieces.flatMap Text.respell) = (locate start 0 pieces).map widen := by
  induction pieces generalizing start with
  | nil => rfl
  | cons piece rest induction =>
      have visible := plain piece List.mem_cons_self
      have later := induction fun next member => plain next (List.mem_cons_of_mem _ member)
      rw [List.flatMap_cons, Text.respell]
      split
      next newline =>
        simp only [List.cons_append, List.nil_append, locate, newline]
        simp [Location.widen_advance_line, later, widen]
      next inLine =>
        simp only [List.cons_append, List.nil_append, locate, if_neg visible]
        simp [Location.widen_advance inLine, later, widen]

theorem stopOf_widen (start : Location) (glyphs : List Glyph) :
    stopOf start.widen (glyphs.map widen) = (stopOf start glyphs).widen := by
  induction glyphs generalizing start with
  | nil => rfl
  | cons glyph rest induction => exact induction glyph.span.stop

end Glyph

namespace Text

variable {source : Text}

theorem glyphs_withReturns (plain : carriageReturn ∉ source) :
    source.withReturns.glyphs = source.glyphs.map Glyph.widen := by
  have visible : ∀ piece ∈ source.pieces, piece.char ≠ '\r' :=
    char_ne_of_not_mem ⟨by decide, by decide⟩ plain
  rw [glyphs, pieces_withReturns]
  exact Glyph.locate_respell visible .start

theorem stop_withReturns (plain : carriageReturn ∉ source) :
    source.withReturns.stop = source.stop.widen := by
  rw [stop, glyphs_withReturns plain]
  exact Glyph.stopOf_widen .start source.glyphs

theorem count_newline (text : Text) : text.chars.count '\n' = text.count lineFeed :=
  count_chars ⟨by decide, by decide⟩ text

/-- Lines are counted by the line feeds in front. -/
theorem line_placeOf {left : List Glyph} (within : left <:+ source.glyphs) :
    (source.placeOf left).line =
      1 + (source.take (source.placeOf left).byte.toNat).count lineFeed := by
  obtain ⟨before, behind, split, -, stop, byte, -⟩ := exists_before within
  have lines : before.stop.line = 1 + before.chars.count '\n' :=
    Glyph.line_stopOf .start 0 before.pieces
  have taken : source.take (source.placeOf left).byte.toNat = before := by
    rw [byte, Int.toNat_natCast, split, List.take_left]
  rw [taken, ← stop, lines, count_newline]

end Text

/-- A place of a text in the text with carriage returns: further on by the line feeds before it. -/
def Location.withReturns (source : Text) (place : Location) : Location :=
  { place with byte := place.byte + (source.take place.byte.toNat).count Text.lineFeed }

def Span.withReturns (source : Text) (span : Span) : Span :=
  ⟨span.start.withReturns source, span.stop.withReturns source⟩

namespace Text

variable {source front behind : Text} {glyph : Glyph} {left : List Glyph}

theorem byte_withReturns {place : Location} (split : source = front ++ behind)
    (byte : place.byte = front.length) :
    (place.withReturns source).byte = front.withReturns.length := by
  have taken : source.take place.byte.toNat = front := by
    rw [split, byte, Int.toNat_natCast, List.take_left]
  change place.byte + (source.take place.byte.toNat).count lineFeed = _
  rw [taken, byte, length_withReturns]
  rfl

theorem widen_placeOf (within : left <:+ source.glyphs) :
    (source.placeOf left).widen = (source.placeOf left).withReturns source := by
  have line := line_placeOf within
  simp only [Location.widen, Location.withReturns, Location.mk.injEq, and_true]
  omega

theorem withReturns_stop (plain : carriageReturn ∉ source) :
    source.withReturns.stop = source.stop.withReturns source := by
  have nothing : [] <:+ source.glyphs := List.nil_suffix
  rw [stop_withReturns plain]
  exact widen_placeOf nothing

def respelling (source : Text) (plain : carriageReturn ∉ source) : Respacing where
  source := source
  other := source.withReturns
  place place twin := twin = place.withReturns source
  stops := withReturns_stop plain

theorem counterpart_widen (plain : carriageReturn ∉ source) (within : glyph :: left <:+ source.glyphs) :
    (source.respelling plain).Counterpart glyph glyph.widen := by
  have stop : glyph.span.stop = source.placeOf left := stop_eq_placeOf within
  have start : glyph.span.start.widen = glyph.span.start.withReturns source := widen_placeOf within
  have stopTwin : glyph.span.stop.widen = glyph.span.stop.withReturns source := by
    rw [stop]
    exact widen_placeOf ((List.suffix_cons _ _).trans within)
  refine ⟨⟨start, stopTwin⟩, rfl, Iff.rfl, ?_⟩
  intro inLine
  have cut : [glyph] ++ left <:+ source.glyphs := within
  obtain ⟨first, second, third, split, begins, ends, shown, -⟩ := exists_cut cut
  have inside : lineFeed ∉ second := by
    intro member
    have newline : '\n' ∈ second.visible := by
      refine List.mem_filter.mpr ⟨?_, by decide⟩
      apply List.count_pos_iff.mp
      rw [count_newline]
      exact List.count_pos_iff.mpr member
    rw [shown, List.map_singleton, List.mem_singleton] at newline
    exact inLine newline.symm
  refine ⟨second, ⟨first, third, split, begins, ?_⟩, first.withReturns, third.withReturns, ?_, ?_, ?_⟩
  · rw [stop, ends]
  · change source.withReturns = _
    rw [split, withReturns_append, withReturns_append, withReturns_of_line inside]
  · change glyph.span.start.widen.byte = _
    rw [start]
    exact byte_withReturns split begins
  · rw [← List.append_assoc] at split
    rw [← stop, ← Int.natCast_add, ← List.length_append] at ends
    change glyph.span.stop.widen.byte = _
    rw [stopTwin, byte_withReturns split ends, withReturns_append, withReturns_of_line inside,
      List.length_append]
    rfl

theorem respaced_withReturns (plain : carriageReturn ∉ source) :
    Tree.Respaced (source.respelling plain) [] source.glyphs source.withReturns.glyphs := by
  rw [glyphs_withReturns plain]
  apply Tree.Respaced.of_counterparts
  apply List.forall₂_map_right_iff.mpr
  apply List.forall₂_same.mpr
  intro glyph member
  obtain ⟨before, left, split⟩ := List.append_of_mem member
  exact counterpart_widen plain ⟨before, split.symm⟩

theorem after_withReturns {start : Text} (plain : carriageReturn ∉ start) (inLine : lineFeed ∉ start)
    (text : Text) : after? text.withReturns start = (after? text start).map withReturns := by
  induction start generalizing text with
  | nil =>
      rw [after?, after?]
      rfl
  | cons head start induction =>
      rw [List.mem_cons, not_or] at plain inLine
      cases text with
      | nil => rfl
      | cons byte rest =>
          rw [← List.singleton_append, withReturns_append]
          by_cases line : byte = lineFeed
          · simp [withReturns, line, after?, plain.1, inLine.1]
          · rw [withReturns_of_line (by simpa using Ne.symm line)]
            simp only [List.singleton_append, after?]
            split
            next => exact induction plain.2 inLine.2 rest
            next => rfl

theorem dropMark_withReturns (text : Text) : text.withReturns.dropMark = text.dropMark.withReturns := by
  have after : after? text.withReturns byteOrderMark = (after? text byteOrderMark).map withReturns :=
    after_withReturns (by decide) (by decide) text
  rw [dropMark, dropMark, after]
  cases after? text byteOrderMark <;> rfl

theorem dropMark_suffix (text : Text) : text.dropMark <:+ text := by
  rw [dropMark]
  cases after : after? text byteOrderMark with
  | none => exact List.suffix_refl _
  | some behind => exact ⟨byteOrderMark, (after_eq_some.mp after).symm⟩

theorem dropEnding_return (line : Text) : (line ++ [carriageReturn]).dropEnding [carriageReturn] = line := by
  have ends : (line ++ [carriageReturn]).endsWith [carriageReturn] = true :=
    List.isSuffixOf_iff_suffix.mpr (List.suffix_append _ _)
  rw [dropEnding, if_pos ends]
  simp

theorem dropEnding_plain {line : Text} (plain : carriageReturn ∉ line) :
    line.dropEnding [carriageReturn] = line := by
  apply if_neg
  intro ends
  exact plain ((List.isSuffixOf_iff_suffix.mp ends).subset List.mem_cons_self)

theorem lineAt_cut (front behind : Text) :
    lineAt (front ++ behind) front.length =
      Text.dropEnding ((front.reverse.takeWhile (· ≠ lineFeed)).reverse
        ++ behind.takeWhile (· ≠ lineFeed)) [carriageReturn] := by
  have inside : ¬ ((front.length : Int) < 0 || (front.length : Int) > (front ++ behind).length) = true := by
    simp only [List.length_append, Bool.or_eq_true, decide_eq_true_eq]
    omega
  rw [lineAt, if_neg inside, Int.toNat_natCast, List.take_left, List.drop_left]

theorem lineStart_withReturns (front : Text) :
    front.withReturns.reverse.takeWhile (· ≠ lineFeed) = front.reverse.takeWhile (· ≠ lineFeed) := by
  rw [← List.reverse_reverse front]
  induction front.reverse with
  | nil => rfl
  | cons byte rest induction =>
      rw [List.reverse_cons, withReturns_append, List.reverse_append, List.reverse_append]
      by_cases line : byte = lineFeed
      · simp [withReturns, line]
      · simpa [withReturns, line] using induction

theorem lineEnd_withReturns (behind : Text) :
    behind.withReturns.takeWhile (· ≠ lineFeed) =
      behind.takeWhile (· ≠ lineFeed) ++ if lineFeed ∈ behind then [carriageReturn] else [] := by
  induction behind with
  | nil => rfl
  | cons byte rest induction =>
      rw [← List.singleton_append, withReturns_append]
      by_cases line : byte = lineFeed
      · simp [withReturns, line, carriageReturn, lineFeed]
      · simpa [withReturns, line, Ne.symm line] using induction

/-- The line around a place is the same text, however lines end. -/
theorem lineAt_withReturns (plain : carriageReturn ∉ source) (split : source = front ++ behind) :
    lineAt source.withReturns front.withReturns.length = lineAt source front.length := by
  rw [split, List.mem_append, not_or] at plain
  rw [split, withReturns_append, lineAt_cut, lineAt_cut, lineStart_withReturns, lineEnd_withReturns,
    ← List.append_assoc]
  have line : carriageReturn ∉ (front.reverse.takeWhile (· ≠ lineFeed)).reverse
      ++ behind.takeWhile (· ≠ lineFeed) := by
    rw [List.mem_append, List.mem_reverse]
    rintro (inFront | inBehind)
    · exact plain.1 (List.mem_reverse.mp ((List.takeWhile_prefix _).subset inFront))
    · exact plain.2 ((List.takeWhile_prefix _).subset inBehind)
  rw [dropEnding_plain line]
  split
  next => exact dropEnding_return _
  next => rw [List.append_nil, dropEnding_plain line]

end Text

end ScopeLint
