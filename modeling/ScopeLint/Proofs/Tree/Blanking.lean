import ScopeLint.Proofs.Source.Pieces
import ScopeLint.Proofs.Tree.Respaced

/-!
Texts whose comments are blanked. The machine with a stack finds the comments, since a comment mark
inside a string is none; what it does not skip stays byte for byte, so the pieces that it was read
from stay as well and only move.
-/

namespace ScopeLint

def Respacing.loose (source other : Text) : Respacing where
  source := source
  other := other
  place _ _ := True
  stops := trivial

namespace Tree

open Machine

/-- A text from some glyphs on, with spaces in place of the comments that are skipped there: one of
them, and `extra` more by the place of the comment. Carriage returns in front of a comment are no
part of it. Behind a fault nothing is skipped. -/
def blankFrom (extra : Location → Nat) (source : Text) (stack : List Open) (glyphs : List Glyph) :
    Text :=
  match glyphs with
  | [] => source.drop source.stop.byte.toNat
  | glyph :: rest =>
      match _ : step stack glyph rest with
      | .error _ => source.drop glyph.span.start.byte.toNat
      | .ok (after, left) =>
          (if skips stack glyph rest then
            source.slice glyph.span.start.byte.toNat (glyph.span.stop.byte.toNat - 1)
              ++ Text.spaces (extra glyph.span.start + 1)
          else source.slice glyph.span.start.byte.toNat (source.placeOf left).byte.toNat)
            ++ blankFrom extra source after left
termination_by glyphs.length
decreasing_by
  have shorter := step_length (by assumption)
  simp only [List.length_cons]
  omega

variable {extra : Location → Nat} {source other : Text} {stack after : List Open} {glyph : Glyph}
  {glyphs rest passed left : List Glyph} {pieces blanked : List Piece}

theorem blankFrom_nil : blankFrom extra source stack [] = source.drop source.stop.byte.toNat := by
  rw [blankFrom]

theorem blankFrom_stuck {error : SyntaxError} (stuck : step stack glyph rest = .error error) :
    blankFrom extra source stack (glyph :: rest) = source.drop glyph.span.start.byte.toNat := by
  rw [blankFrom]
  split
  next => rfl
  next moved => simp [stuck] at moved

theorem blankFrom_moved (moves : step stack glyph rest = .ok (after, left)) :
    blankFrom extra source stack (glyph :: rest) =
      (if skips stack glyph rest then
        source.slice glyph.span.start.byte.toNat (glyph.span.stop.byte.toNat - 1)
          ++ Text.spaces (extra glyph.span.start + 1)
      else source.slice glyph.span.start.byte.toNat (source.placeOf left).byte.toNat)
        ++ blankFrom extra source after left := by
  rw [blankFrom]
  split
  next error stuck => simp [moves] at stuck
  next other remaining same =>
    rw [moves] at same
    obtain ⟨rfl, rfl⟩ := Prod.mk.inj (Except.ok.inj same)
    rfl

theorem counterparts_locate {front frontTwin text behind behindTwin : Text} {here there : Location}
    (split : source = front ++ (text ++ (Text.ofPieces pieces ++ behind)))
    (splitTwin : other = frontTwin ++ (text ++ (Text.ofPieces pieces ++ behindTwin)))
    (start : here.byte = front.length) (startTwin : there.byte = frontTwin.length)
    (low : 1 ≤ here.col) (lowTwin : 1 ≤ there.col) (cols : there.col = 1 ↔ here.col = 1) :
    List.Forall₂ (Respacing.loose source other).Counterpart
      (Glyph.locate here text.length pieces) (Glyph.locate there text.length pieces) := by
  induction pieces generalizing front frontTwin text here there with
  | nil => exact .nil
  | cons piece rest induction =>
      rw [Text.ofPieces_cons, List.append_assoc, ← List.append_assoc text] at split splitTwin
      rw [Glyph.locate.eq_2, Glyph.locate.eq_2, ← List.length_append]
      split
      next => exact induction split splitTwin start startTwin low lowTwin cols
      next =>
        have stop := Glyph.advance_byte here piece.char (text ++ piece.bytes).length
        have stopTwin := Glyph.advance_byte there piece.char (text ++ piece.bytes).length
        have col := Glyph.advance_col here piece.char (text ++ piece.bytes).length
        have colTwin := Glyph.advance_col there piece.char (text ++ piece.bytes).length
        refine .cons ⟨⟨trivial, trivial⟩, rfl, cols, fun _ => ⟨text ++ piece.bytes, ?_, ?_⟩⟩ ?_
        · exact ⟨front, _, split, start, by rw [stop, start]⟩
        · exact ⟨frontTwin, _, splitTwin, startTwin, by rw [stopTwin, startTwin]⟩
        · rw [← List.append_assoc] at split splitTwin
          -- Nothing is held back behind a glyph.
          refine @induction _ _ [] _ _ split splitTwin ?_ ?_ ?_ ?_ ?_
          · rw [stop, start, ← Int.natCast_add, ← List.length_append]
          · rw [stopTwin, startTwin, ← Int.natCast_add, ← List.length_append]
          · rw [col]
            split <;> omega
          · rw [colTwin]
            split <;> omega
          · rw [col, colTwin]
            split <;> omega

theorem counterparts_passed {front frontTwin behind behindTwin : Text} {here there : Location}
    (located : Glyph.locate here 0 pieces = passed)
    (split : source = front ++ (Text.ofPieces pieces ++ behind))
    (splitTwin : other = frontTwin ++ (Text.ofPieces pieces ++ behindTwin))
    (start : here.byte = front.length) (startTwin : there.byte = frontTwin.length)
    (low : 1 ≤ here.col) (lowTwin : 1 ≤ there.col) (cols : there.col = 1 ↔ here.col = 1) :
    List.Forall₂ (Respacing.loose source other).Counterpart passed
      (Glyph.locate there 0 pieces) := by
  rw [← located]
  exact @counterparts_locate _ _ _ _ _ [] _ _ _ _ split splitTwin start startTwin low lowTwin cols

/-- Pieces that a text with blanked comments is read as from some glyphs on, given the pieces that
these glyphs were read from. -/
structure Blanked (extra : Location → Nat) (source : Text) (stack : List Open) (glyphs : List Glyph)
    (pieces blanked : List Piece) : Prop where
  bytes : Text.ofPieces blanked = blankFrom extra source stack glyphs
  decodes : ∀ before middle, source.pieces = before ++ (middle ++ pieces) →
    (Text.ofPieces (middle ++ blanked)).pieces = middle ++ blanked
  respaced : ∀ (front : Text) (there : Location), there.byte = front.length → 1 ≤ there.col →
    (there.col = 1 ↔ (source.placeOf glyphs).col = 1) →
    Respaced (.loose source (front ++ Text.ofPieces blanked)) stack glyphs
      (Glyph.locate there 0 blanked)

theorem Blanked.respaced_behind {front behind : List Piece} {frontTwin : Text} {there : Location}
    (blanking : Blanked extra source after left behind blanked) (whole : Glyph.Whole front)
    (nonempty : front ≠ []) (startTwin : there.byte = frontTwin.length) (low : 1 ≤ there.col)
    (cols : ((Glyph.locate there 0 front).map Glyph.char).getLast? = some '\n' ↔
      (source.placeOf left).col = 1) :
    ∃ others, Glyph.locate there 0 (front ++ blanked) = Glyph.locate there 0 front ++ others ∧
      Respaced (.loose source (frontTwin ++ Text.ofPieces (front ++ blanked))) after left others := by
  obtain ⟨located, stop⟩ := Glyph.locate_append whole nonempty there 0 blanked
  obtain ⟨lowStop, ends⟩ := Glyph.col_stopOf low 0 front
  refine ⟨_, located, ?_⟩
  rw [Text.ofPieces_append, ← List.append_assoc]
  apply blanking.respaced
  · rw [stop, startTwin, List.length_append]
    omega
  · exact lowStop
  · rw [ends (whole.locate_ne_nil nonempty there 0), cols]

theorem blanked_rest (remains : source.Remains glyphs pieces)
    (same : blankFrom extra source stack glyphs = source.drop (source.placeOf glyphs).byte.toNat) :
    Blanked extra source stack glyphs pieces pieces := by
  obtain ⟨front, split, start⟩ := remains.exists_front
  refine ⟨?_, ?_, ?_⟩
  · rw [same, start, Int.toNat_natCast]
    conv => rhs; rw [split]
    rw [List.drop_left]
  · intro before middle cut
    exact (Text.pieces_cut cut).2.2
  · intro frontTwin there startTwin low cols
    apply Respaced.of_counterparts
    rw [← List.append_nil (Text.ofPieces pieces)] at split ⊢
    exact counterparts_passed remains.located split rfl start startTwin remains.col low cols

theorem exists_blanked_kept (remains : source.Remains (glyph :: rest) pieces)
    (moves : step stack glyph rest = .ok (after, left)) (keeps : skips stack glyph rest = false)
    (later : ∀ behind, source.Remains left behind →
      ∃ blanked, Blanked extra source after left behind blanked) :
    ∃ blanked, Blanked extra source stack (glyph :: rest) pieces blanked := by
  obtain ⟨skipped, rfl⟩ := step_suffix moves
  have nonempty : glyph :: skipped ≠ [] := List.cons_ne_nil _ _
  have split : glyph :: (skipped ++ left) = glyph :: skipped ++ left := rfl
  rw [split] at remains
  obtain ⟨front, behind, rfl, whole, more, located, slice, remainsLeft⟩ := remains.cut nonempty
  obtain ⟨blanked, blanking⟩ := later behind remainsLeft
  refine ⟨front ++ blanked, ?_, ?_, ?_⟩
  · rw [Text.ofPieces_append, blanking.bytes, blankFrom_moved moves, keeps, ← slice]
    rfl
  · intro before middle cut
    rw [← List.append_assoc middle]
    apply blanking.decodes before
    rw [cut, List.append_assoc]
  · intro frontTwin there startTwin low cols
    obtain ⟨before, bytes, start⟩ := remains.exists_front
    have colsLeft : ((Glyph.locate there 0 front).map Glyph.char).getLast? = some '\n' ↔
        (source.placeOf left).col = 1 := by
      rw [remains.col_iff nonempty, ← located, Glyph.map_char_locate, Glyph.map_char_locate]
    obtain ⟨others, locatedTwin, respaced⟩ :=
      blanking.respaced_behind whole more startTwin low colsLeft
    rw [locatedTwin]
    refine .moved moves split ?_ respaced
    rw [Text.ofPieces_append] at bytes ⊢
    exact counterparts_passed located bytes rfl start startTwin remains.col low cols

def blank : Piece := ⟨' ', [0x20]⟩

theorem pieces_spaces (count : Nat) (behind : Text) :
    (Text.spaces count ++ behind).pieces = List.replicate count blank ++ behind.pieces := by
  induction count with
  | zero => rfl
  | succ count induction =>
      change Text.pieces (0x20 :: (Text.spaces count ++ behind)) = _
      rw [Text.pieces_single (by decide), induction]
      rfl

theorem ofPieces_blanks (count : Nat) :
    Text.ofPieces (List.replicate count blank) = Text.spaces count := by
  have decoded := pieces_spaces count []
  rw [List.append_nil] at decoded
  conv => rhs; rw [← Text.ofPieces_pieces (Text.spaces count), decoded]
  exact congrArg Text.ofPieces (List.append_nil _).symm

/-- Spaces may be put between texts without joining or splitting a character. -/
theorem pieces_between (count : Nat) {front behind : List Piece}
    (same : (Text.ofPieces front).pieces = front) (later : (Text.ofPieces behind).pieces = behind) :
    (Text.ofPieces (front ++ (List.replicate (count + 1) blank ++ behind))).pieces =
      front ++ (List.replicate (count + 1) blank ++ behind) := by
  rw [Text.ofPieces_append, Text.ofPieces_append, ofPieces_blanks, Text.pieces_append, pieces_spaces,
    same, later]
  intro byte head
  obtain rfl := Option.some.inj head
  decide

theorem whole_blanks (returns : List Piece) (count : Nat) :
    Glyph.Whole (returns ++ List.replicate (count + 1) blank) := by
  intro last head
  rw [List.replicate_succ', ← List.append_assoc, List.getLast?_concat] at head
  obtain rfl := Option.some.inj head
  decide

theorem chars_blanks {returns : List Piece} (hidden : ∀ piece ∈ returns, piece.char = '\r')
    (count : Nat) (start : Location) :
    (Glyph.locate start 0 (returns ++ List.replicate count blank)).map Glyph.char =
      List.replicate count ' ' := by
  have empty : (returns.map Piece.char).filter (fun char => char ≠ '\r') = [] := by
    apply List.filter_eq_nil_iff.mpr
    intro char member
    obtain ⟨piece, held, rfl⟩ := List.mem_map.mp member
    simp [hidden piece held]
  rw [Glyph.map_char_locate, List.map_append, List.filter_append, empty, List.map_replicate]
  simp [blank]

/-- A comment does not end with a line break. -/
theorem last_of_comment (moves : step stack glyph (passed ++ left) = .ok (after, left))
    (comment : skips stack glyph (passed ++ left) = true) :
    ((glyph :: passed).map Glyph.char).getLast? ≠ some '\n' := by
  obtain ⟨code, hash | ⟨angle, next, behind, split, hash⟩⟩ := mark_of_skips comment
  · rw [step_code code, inCode_comment hash] at moves
    have line : skipLine (passed ++ left) = left := (Prod.mk.inj (Except.ok.inj moves)).2
    intro last
    obtain ⟨final, member, newline⟩ := List.mem_map.mp (List.mem_of_getLast? last)
    rcases List.mem_cons.mp member with rfl | member
    · rw [hash] at newline
      exact absurd newline (by decide)
    · exact inLine_of_skipLine line final member newline
  · rw [step_code code, split, inCode_block angle hash] at moves
    cases closed : skipBlock? behind with
    | none => simp [closed] at moves
    | some rest =>
        rw [closed] at moves
        obtain ⟨-, rfl⟩ := Prod.mk.inj (Except.ok.inj moves)
        obtain ⟨comment, mark, last, rfl, -, closes, -⟩ := exists_of_skipBlock closed
        have whole : passed ++ rest = next :: (comment ++ [mark, last]) ++ rest := by
          rw [split]
          simp
        rw [List.append_cancel_right whole, List.map_cons, List.map_cons, List.map_append,
          ← List.cons_append, ← List.cons_append, List.getLast?_append]
        simp [closes]

theorem exists_blanked_comment (remains : source.Remains (glyph :: rest) pieces)
    (moves : step stack glyph rest = .ok (after, left)) (comment : skips stack glyph rest = true)
    (later : ∀ behind, source.Remains left behind →
      ∃ blanked, Blanked extra source after left behind blanked) :
    ∃ blanked, Blanked extra source stack (glyph :: rest) pieces blanked := by
  obtain ⟨skipped, rfl⟩ := step_suffix moves
  have ascii : Text.IsAscii glyph.char := by
    obtain ⟨-, hash | ⟨angle, -⟩⟩ := mark_of_skips comment
    · exact hash ▸ ⟨by decide, by decide⟩
    · exact angle ▸ ⟨by decide, by decide⟩
  obtain ⟨returns, mark, others, rfl, hidden, -, slice, remainsRest⟩ := remains.exists_mark ascii
  obtain ⟨inner, behind, rfl, remainsLeft⟩ := remainsRest.drop
  obtain ⟨blanked, blanking⟩ := later behind remainsLeft
  let blanks := List.replicate (extra glyph.span.start + 1) blank
  refine ⟨returns ++ (blanks ++ blanked), ?_, ?_, ?_⟩
  · rw [Text.ofPieces_append, Text.ofPieces_append, ofPieces_blanks, blanking.bytes,
      blankFrom_moved moves, comment, ← slice, if_pos rfl, List.append_assoc]
  · intro before middle cut
    have prior : source.pieces = before ++ ((middle ++ returns) ++ (mark :: (inner ++ behind))) := by
      simp [cut]
    have rest : source.pieces = (before ++ (middle ++ returns ++ mark :: inner)) ++ ([] ++ behind) := by
      simp [cut]
    rw [← List.append_assoc middle]
    exact pieces_between _ (Text.pieces_cut (Text.pieces_cut prior).2.2).2.1
      (blanking.decodes _ _ rest)
  · intro frontTwin there startTwin low cols
    have more : returns ++ blanks ≠ [] := by simp [blanks]
    have whole : Glyph.Whole (returns ++ blanks) := whole_blanks returns _
    have chars : (Glyph.locate there 0 (returns ++ blanks)).map Glyph.char =
        List.replicate (extra glyph.span.start + 1) ' ' := chars_blanks hidden _ there
    have passes : glyph :: (skipped ++ left) = glyph :: skipped ++ left := rfl
    rw [passes] at remains
    -- Neither a space nor the end of a comment is a line break.
    have colsLeft : ((Glyph.locate there 0 (returns ++ blanks)).map Glyph.char).getLast? =
        some '\n' ↔ (source.placeOf left).col = 1 := by
      rw [chars, remains.col_iff (List.cons_ne_nil _ _)]
      apply iff_of_false
      · rw [List.replicate_succ', List.getLast?_concat]
        decide
      · exact last_of_comment moves comment
    obtain ⟨others, located, respaced⟩ := blanking.respaced_behind whole more startTwin low colsLeft
    rw [← List.append_assoc, located]
    refine .blank moves comment (whole.locate_ne_nil more there 0) ?_ respaced
    intro space member
    have inside := List.mem_map_of_mem (f := Glyph.char) member
    rw [chars] at inside
    exact List.eq_of_mem_replicate inside

theorem exists_blanked (extra : Location → Nat) (source : Text) (stack : List Open)
    (glyphs : List Glyph) (pieces : List Piece) (remains : source.Remains glyphs pieces) :
    ∃ blanked, Blanked extra source stack glyphs pieces blanked := by
  match glyphs, remains with
  | [], remains => exact ⟨pieces, blanked_rest remains blankFrom_nil⟩
  | glyph :: rest, remains =>
      cases moves : step stack glyph rest with
      | error error => exact ⟨pieces, blanked_rest remains (blankFrom_stuck moves)⟩
      | ok value =>
          have shorter := step_length moves
          have later := exists_blanked extra source value.1 value.2
          cases comment : skips stack glyph rest with
          | false => exact exists_blanked_kept remains moves comment later
          | true => exact exists_blanked_comment remains moves comment later
termination_by glyphs.length

end Tree

namespace Text

/-- The text with each comment that is skipped in it replaced by spaces, by one and `extra` more. -/
def blankComments (extra : Location → Nat) (source : Text) : Text :=
  Tree.blankFrom extra source [] source.glyphs

theorem respaced_blankComments (extra : Location → Nat) (source : Text) :
    Tree.Respaced (.loose source (source.blankComments extra)) [] source.glyphs
      (source.blankComments extra).glyphs := by
  obtain ⟨blanked, blanking⟩ := Tree.exists_blanked extra source [] _ _ source.remains_glyphs
  have located : (ofPieces blanked).glyphs = Glyph.locate .start 0 blanked :=
    congrArg (Glyph.locate .start 0) (blanking.decodes [] [] rfl)
  have start : source.placeOf source.glyphs = .start := source.placeOf_glyphs
  have respaced := blanking.respaced [] .start rfl (by decide) (by rw [start])
  rw [List.nil_append] at respaced
  rw [blankComments, ← blanking.bytes, located]
  exact respaced

example : blankComments (fun _ => 1) "a<#\n#>'#'#b\n" = ofString "a  '#'  \n" := by
  cbv

end Text

end ScopeLint
