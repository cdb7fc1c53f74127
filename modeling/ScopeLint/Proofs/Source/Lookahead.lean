import Mathlib.Data.List.Induction
import ScopeLint.Proofs.Source.Pieces
import ScopeLint.Proofs.Text.Decoding
import ScopeLint.Proofs.Text.Split
import ScopeLint.Source.Lookahead

/-!
A reader with one character of lookahead against the characters of its text. Whatever is asked of it, and
in which order, it answers by the characters that have not been taken; only taking one changes anything.
What it holds and how far it has decoded is kept in step with these characters by every call.
-/

namespace ScopeLint

namespace Glyph

def Linked : Location → List Glyph → Prop
  | _, [] => True
  | place, glyph :: rest => glyph.span.start = place ∧ Linked glyph.span.stop rest

/-- Glyphs from a place on, each behind which the place has moved on by its character. -/
def Paced : Location → List Glyph → Prop
  | _, [] => True
  | place, glyph :: rest =>
      (∃ width, glyph.span = ⟨place, place.advance glyph.char width⟩) ∧ Paced glyph.span.stop rest

variable {place : Location} {glyphs behind : List Glyph}

theorem paced_locate (place : Location) (held : Nat) (pieces : List Piece) :
    Paced place (locate place held pieces) := by
  induction pieces generalizing place held with
  | nil => trivial
  | cons piece rest induction =>
      rw [locate]
      split
      next => exact induction place _
      next => exact ⟨⟨_, rfl⟩, induction _ 0⟩

theorem Paced.linked (paced : Paced place glyphs) : Linked place glyphs := by
  induction glyphs generalizing place with
  | nil => trivial
  | cons glyph rest induction =>
      obtain ⟨⟨width, span⟩, later⟩ := paced
      exact ⟨congrArg Span.start span, induction later⟩

theorem Paced.front (paced : Paced place (glyphs ++ behind)) : Paced place glyphs := by
  induction glyphs generalizing place with
  | nil => trivial
  | cons glyph rest induction => exact ⟨paced.1, induction paced.2⟩

theorem Paced.last {glyph : Glyph} (paced : Paced place (glyphs ++ [glyph])) :
    ∃ width, glyph.span.stop = (stopOf place glyphs).advance glyph.char width := by
  induction glyphs generalizing place with
  | nil =>
      obtain ⟨⟨width, span⟩, -⟩ := paced
      exact ⟨width, congrArg Span.stop span⟩
  | cons first rest induction => exact induction paced.2

/-- Lines are counted by the line breaks in front, columns by the characters behind the last one. -/
theorem Paced.place_eq (paced : Paced .start glyphs) :
    (stopOf .start glyphs).line = 1 + (glyphs.map char).count '\n' ∧
      (stopOf .start glyphs).col =
        1 + ((glyphs.map char).reverse.takeWhile fun char => char ≠ '\n').length := by
  induction glyphs using List.reverseRecOn with
  | nil => exact ⟨rfl, rfl⟩
  | append_singleton front glyph induction =>
      obtain ⟨line, col⟩ := induction paced.front
      obtain ⟨width, stop⟩ := paced.last
      rw [stopOf_append, stopOf, stopOf, stop, Location.advance, List.map_append, List.count_append,
        List.reverse_append, List.map_singleton, List.reverse_singleton, List.singleton_append]
      by_cases newline : glyph.char = '\n'
      · rw [if_pos newline, List.takeWhile_cons_of_neg (by simpa using newline)]
        refine ⟨?_, rfl⟩
        simp only [line, newline, List.count_singleton_self]
        omega
      · rw [if_neg newline, List.takeWhile_cons_of_pos (by simpa using newline)]
        simp only [line, col, List.count_singleton, List.length_cons, beq_iff_eq, if_neg newline]
        omega

end Glyph

namespace Text

variable {source : Text} {left : List Glyph}

theorem pieces_lead (first : UInt8) (rest : Text) :
    pieces (first :: rest) =
      Utf8.lead first rest :: pieces (rest.drop ((Utf8.lead first rest).bytes.length - 1)) := by
  rw [pieces, Utf8.piecesFrom]
  exact congrArg (List.cons _) (Utf8.piecesFrom_eq_drop _ rest)

/-- The text under a glyph, carriage returns in front of it included. -/
theorem slice_span {glyph : Glyph} {rest : List Glyph} (within : glyph :: rest <:+ source.glyphs) :
    glyph.span.slice source =
      source.slice glyph.span.start.byte.toNat (source.placeOf rest).byte.toNat := by
  have cut : [glyph] ++ rest <:+ source.glyphs := within
  have inside := placeOf_le_length ((List.suffix_cons _ _).trans within)
  obtain ⟨first, second, third, -, start, stop, -⟩ := exists_cut cut
  rw [List.singleton_append, placeOf_cons] at start
  rw [Span.slice, stop_eq_placeOf within, if_neg]
  simp only [Bool.or_eq_true, decide_eq_true_eq]
  omega

theorem flatMap_slice (within : left <:+ source.glyphs) :
    left.flatMap (fun glyph => glyph.span.slice source) =
      source.slice (source.placeOf left).byte.toNat source.stop.byte.toNat := by
  induction left with
  | nil => simp [Text.slice, placeOf, Cursor.location]
  | cons glyph rest induction =>
      have later := (List.suffix_cons _ _).trans within
      have cut : [glyph] ++ rest <:+ source.glyphs := within
      have ends : rest ++ [] <:+ source.glyphs := (List.append_nil rest).symm ▸ later
      have low := placeOf_le cut
      have high := placeOf_le ends
      rw [List.append_nil] at high
      rw [List.flatMap_cons, induction later, slice_span within, placeOf_cons]
      exact (slice_append source (Int.toNat_le_toNat low) (Int.toNat_le_toNat high)).symm

/-- A text is the bytes under its glyphs, with carriage returns behind them if it ends in some. -/
theorem eq_slices_append (source : Text) :
    ∃ returns, source = source.glyphs.flatMap (fun glyph => glyph.span.slice source) ++
        List.replicate returns carriageReturn ∧
      ¬ [carriageReturn] <:+ source.glyphs.flatMap fun glyph => glyph.span.slice source := by
  have nothing : [] <:+ source.glyphs := List.nil_suffix
  obtain ⟨before, behind, split, apart, -, byte, ends⟩ := exists_before nothing
  have stop : source.stop.byte = before.length := byte
  have covered : source.glyphs.flatMap (fun glyph => glyph.span.slice source) = before := by
    rw [flatMap_slice (List.suffix_refl _), placeOf_glyphs, stop, Int.toNat_natCast, split]
    simp [Text.slice, Location.start]
  have hidden : behind.visible = [] := by
    have shown := beyond_placeOf nothing
    rw [beyond, between, byte, Int.toNat_natCast, Int.toNat_natCast, split] at shown
    simpa [Text.slice] using shown
  have returns : ∀ piece ∈ behind.pieces, piece.bytes = [carriageReturn] := by
    intro piece member
    have filtered := List.filter_eq_nil_iff.mp hidden piece.char (List.mem_map_of_mem member)
    have carriage : piece.char = '\r' := by simpa using filtered
    have ascii : IsAscii piece.char := carriage ▸ ⟨by decide, by decide⟩
    rw [bytes_of_ascii member ascii, carriage]
    rfl
  have all : ∀ byte ∈ behind, byte = carriageReturn := by
    intro byte member
    rw [← ofPieces_pieces behind] at member
    obtain ⟨piece, inside, part⟩ := List.mem_flatMap.mp member
    rw [returns piece inside] at part
    exact List.mem_singleton.mp part
  rw [covered]
  exact ⟨behind.length, by rw [← List.eq_replicate_of_mem all]; exact split, ends⟩

end Text

namespace Lookahead

/-- Some bytes from an offset on hold glyphs that come behind a place. What lies between the place and
the offset are carriage returns that have been passed. -/
def Yields (place : Location) (offset : Nat) (bytes : Text) (glyphs : List Glyph) : Prop :=
  ∃ passed : Nat, offset = place.byte + passed ∧ Glyph.locate place passed bytes.pieces = glyphs

variable {source : Text} {place : Location} {offset : Nat} {bytes : Text} {glyphs left : List Glyph}
  {ahead : Lookahead}

/-- Decoding finds the first glyph, and the others behind it. Without a glyph nothing is found later. -/
theorem Yields.ofBytes (yields : Yields place offset bytes glyphs) :
    (Decoding.ofBytes place offset bytes).glyph = glyphs.head? ∧
      Yields ((glyphs.head?.map fun glyph => glyph.span.stop).getD place)
        (Decoding.ofBytes place offset bytes).offset (Decoding.ofBytes place offset bytes).left
        glyphs.tail := by
  obtain ⟨passed, start, located⟩ := yields
  fun_induction Decoding.ofBytes place offset bytes generalizing passed with
  | case1 offset =>
      obtain rfl := located
      exact ⟨rfl, passed, start, rfl⟩
  | case2 offset first rest piece behind left carriage induction =>
      rw [Text.pieces_lead, Glyph.locate, if_pos carriage] at located
      refine induction (passed + piece.bytes.length) ?_ located
      simp only [behind]
      omega
  | case3 offset first rest piece behind left visible =>
      rw [Text.pieces_lead, Glyph.locate, if_neg visible] at located
      obtain rfl := located
      have stop : { place.advance piece.char 0 with byte := (behind : Int) } =
          place.advance piece.char (passed + piece.bytes.length) := by
        simp only [Location.advance, behind]
        split <;> simp only [Location.mk.injEq, and_true] <;> omega
      exact ⟨by rw [stop]; rfl, 0, (congrArg Location.byte stop).trans (Int.add_zero _).symm, rfl⟩

/-- A reader that has still to give some glyphs of a text: the one it holds, and those in the bytes that
it has not decoded. -/
def Tracks (source : Text) (ahead : Lookahead) (left : List Glyph) : Prop :=
  left <:+ source.glyphs ∧ ∃ behind, left = ahead.held.toList ++ behind ∧
    ahead.place = source.placeOf behind ∧ Yields ahead.place ahead.offset ahead.left behind

theorem tracks_ofText (source : Text) : Tracks source (ofText source) source.glyphs :=
  ⟨List.suffix_refl _, source.glyphs, rfl, (Text.placeOf_glyphs source).symm, 0, rfl, rfl⟩

theorem Tracks.fill (tracks : Tracks source ahead left) :
    ahead.fill.held = left.head? ∧ Tracks source ahead.fill left := by
  obtain ⟨within, behind, split, place, yields⟩ := tracks
  rw [Lookahead.fill]
  split
  next glyph held =>
    rw [held] at split
    exact ⟨by rw [held, split]; rfl, within, behind, held ▸ split, place, yields⟩
  next held =>
    rw [held] at split
    obtain rfl : left = behind := split
    obtain ⟨first, later⟩ := yields.ofBytes
    generalize Decoding.ofBytes ahead.place ahead.offset ahead.left = decoded at first later
    obtain ⟨glyph, offset, bytes⟩ := decoded
    obtain rfl : glyph = left.head? := first
    cases left with
    | nil => exact ⟨held, within, [], by rw [held]; rfl, place, later⟩
    | cons glyph rest =>
        exact ⟨rfl, within, rest, rfl, Text.stop_eq_placeOf within, later⟩

def Call.ofCursor (cursor : Cursor) : Call → Answer
  | .peek => .char cursor.peek
  | .second => .char cursor.peekSecond
  | .next => .glyph (cursor.next?.map Prod.fst)
  | .location => .place cursor.location

def Call.leaves (left : List Glyph) : Call → List Glyph
  | .next => left.tail
  | _ => left

theorem Tracks.answer (tracks : Tracks source ahead left) (call : Call) :
    (ahead.answer call).1 = call.ofCursor ⟨left, source.stop⟩ ∧
      Tracks source (ahead.answer call).2 (call.leaves left) := by
  obtain ⟨held, filled⟩ := tracks.fill
  cases call with
  | peek =>
      refine ⟨?_, filled⟩
      rw [Lookahead.answer, Lookahead.peek, held]
      rfl
  | second =>
      refine ⟨?_, filled⟩
      obtain ⟨-, behind, split, -, yields⟩ := filled
      obtain ⟨second, -⟩ := yields.ofBytes
      rw [Lookahead.answer, Lookahead.peekSecond]
      dsimp only
      rw [second, held]
      rw [held] at split
      cases left with
      | nil => rfl
      | cons glyph rest =>
          obtain rfl : rest = behind := (List.cons.inj split).2
          rfl
  | next =>
      refine ⟨(congrArg Answer.glyph held).trans (by cases left <;> rfl), ?_⟩
      obtain ⟨within, behind, split, place, yields⟩ := filled
      rw [held] at split
      refine ⟨(List.tail_suffix _).trans within, behind, ?_, place, yields⟩
      cases left with
      | nil => exact split
      | cons glyph rest => exact (List.cons.inj split).2
  | location =>
      refine ⟨?_, tracks⟩
      obtain ⟨-, behind, split, place, -⟩ := tracks
      rw [Lookahead.answer, Lookahead.location]
      split
      next glyph taken =>
        rw [split, taken]
        rfl
      next ended =>
        rw [split, ended, place]
        rfl

/-- After any calls the characters that they have not taken are still to come. -/
theorem tracks_after (source : Text) (calls : List Call) :
    Tracks source ((ofText source).after calls) (source.glyphs.drop (calls.count .next)) := by
  induction calls using List.reverseRecOn with
  | nil => exact tracks_ofText source
  | append_singleton calls call induction =>
      have step := (induction.answer call).2
      rw [after, List.foldl_append, List.count_append]
      cases call with
      | next =>
          rw [Call.leaves, List.tail_drop] at step
          exact step
      | _ => exact step

/-- What a plain list of located characters answers once some of them are taken. The place behind the
taken ones is where the last of them ends, or the start of the text. -/
def Call.answerAt (stream : List Glyph) (taken : Nat) : Call → Answer
  | .peek => .char (stream[taken]?.map Glyph.char)
  | .second => .char (stream[taken + 1]?.map Glyph.char)
  | .next => .glyph stream[taken]?
  | .location => .place (Glyph.stopOf .start (stream.take taken))

theorem Call.ofCursor_drop (source : Text) (taken : Nat) (call : Call) :
    call.ofCursor ⟨source.glyphs.drop taken, source.stop⟩ = call.answerAt source.glyphs taken := by
  cases call with
  | peek => rw [ofCursor, Cursor.peek, List.head?_drop]; rfl
  | second => rw [ofCursor, Cursor.peekSecond, List.tail_drop, List.head?_drop]; rfl
  | next =>
      rw [ofCursor, Cursor.next?, answerAt, ← List.head?_drop]
      cases source.glyphs.drop taken <;> rfl
  | location =>
      have cut := (List.take_append_drop taken source.glyphs).symm
      exact congrArg Answer.place (Text.placeOf_eq cut)

theorem answer_after (source : Text) (calls : List Call) (call : Call) :
    (((ofText source).after calls).answer call).1 =
      call.answerAt source.glyphs (calls.count .next) := by
  rw [((tracks_after source calls).answer call).1, Call.ofCursor_drop]

/-- A reader answers by the characters of its text. The text has exactly one decoding, and its characters
are those of the decoding without the carriage returns. Their spans follow one another from the first
byte, line and column on, and the bytes under them are the text without the carriage returns at its end.
The place behind any of them counts the line breaks so far, and the characters behind the last of these.
After any calls, in any order, the reader answers the next one by the characters that have not been taken:
calls that take nothing change no later answer, and when nothing is left nothing comes again. -/
theorem answers_by_characters (source : Text) :
    (∀ pieces, source.Decodes pieces ↔ pieces = source.pieces) ∧
    source.glyphs.map Glyph.char = (source.pieces.map Piece.char).filter (fun char => char ≠ '\r') ∧
    Glyph.Linked .start source.glyphs ∧
    (∃ returns, source = source.glyphs.flatMap (fun glyph => glyph.span.slice source) ++
        List.replicate returns Text.carriageReturn ∧
      ¬ [Text.carriageReturn] <:+ source.glyphs.flatMap fun glyph => glyph.span.slice source) ∧
    (∀ taken,
      let place := Glyph.stopOf .start (source.glyphs.take taken)
      let before := (source.glyphs.take taken).map Glyph.char
      place.line = 1 + before.count '\n' ∧
        place.col = 1 + (before.reverse.takeWhile fun char => char ≠ '\n').length) ∧
    (∀ calls call, (((ofText source).after calls).answer call).1 =
      call.answerAt source.glyphs (calls.count .next)) ∧
    (∀ calls others : List Call, ∀ call ≠ .next, ∀ last,
      (((ofText source).after (calls ++ call :: others)).answer last).1 =
        (((ofText source).after (calls ++ others)).answer last).1) ∧
    ∀ calls others, ((ofText source).after calls).next.1 = none →
      ((ofText source).after (calls ++ others)).next.1 = none := by
  have paced : Glyph.Paced .start source.glyphs := Glyph.paced_locate .start 0 source.pieces
  refine ⟨fun pieces => ⟨Text.Decodes.eq_pieces, fun same => same ▸ Text.decodes_pieces source⟩,
    Glyph.map_char_locate .start 0 source.pieces, paced.linked, Text.eq_slices_append source, ?_,
    answer_after source, ?_, ?_⟩
  · intro taken
    rw [← List.take_append_drop taken source.glyphs] at paced
    exact paced.front.place_eq
  · intro calls others call keeps last
    rw [answer_after, answer_after, List.count_append, List.count_append,
      List.count_cons_of_ne keeps]
  · intro calls others failed
    have now : Answer.glyph _ = _ := answer_after source calls .next
    have later : Answer.glyph _ = _ := answer_after source (calls ++ others) .next
    have ended := (Answer.glyph.inj now).symm.trans failed
    refine (Answer.glyph.inj later).trans (List.getElem?_eq_none ?_)
    have taken := List.getElem?_eq_none_iff.mp ended
    rw [List.count_append]
    omega

end Lookahead

end ScopeLint
