import ScopeLint.Proofs.Source.Places

/-!
The order of places is the order of positions. Reading a text character by character comes through
its places, each one a character behind the one before, and an editor counts a later place on a later
line or further to the right, as long as its counts do not run over.
-/

namespace ScopeLint

open Text

namespace Position

/-- One position in front of another: on an earlier line, or further to the left on the same one. -/
def Before (left right : Position) : Prop :=
  left.line < right.line ∨ left.line = right.line ∧ left.character < right.character

/-- Any third position is behind the first or in front of the last. -/
theorem Before.split {first last : Position} (before : first.Before last) (position : Position) :
    first.Before position ∨ position.Before last := by
  unfold Before at before ⊢
  omega

theorem contains_iff (range : Range) (position : Position) :
    range.contains position = true ↔
      ¬ position.Before range.start ∧ ¬ range.stop.Before position := by
  simp only [Range.contains, Before, Bool.and_eq_true, Bool.or_eq_true, decide_eq_true_eq]
  omega

theorem width_append (front behind : List Char) :
    width (front ++ behind) = width front + width behind := by
  induction front with
  | nil => simp [width]
  | cons char rest induction =>
      simp only [width, List.cons_append, List.foldr_cons] at induction ⊢
      omega

theorem width_pos {chars : List Char} (nonempty : chars ≠ []) : 0 < width chars := by
  cases chars with
  | nil => exact absurd rfl nonempty
  | cons char rest =>
      have unit : 0 < units char := by
        unfold units
        split <;> omega
      exact Nat.lt_of_lt_of_le unit (Nat.le_add_right _ _)

theorem width_lastLine_lt {front new : Text} {behind : List Piece} (inLine : lineFeed ∉ new)
    (decoded : (front ++ new).pieces = front.pieces ++ behind) (more : behind ≠ []) :
    width (lastLine front).chars < width (lastLine (front ++ new)).chars := by
  obtain ⟨above, split, -, fresh⟩ := exists_above front
  have apart : (lastLine front ++ new).pieces = (lastLine front).pieces ++ behind := by
    rw [split, List.append_assoc, pieces_above fresh, pieces_above fresh, List.append_assoc] at decoded
    exact List.append_cancel_left decoded
  have wider : 0 < width (behind.map Piece.char) := width_pos fun empty => more (List.map_eq_nil_iff.mp empty)
  rw [lastLine_append front inLine, chars, chars, apart, List.map_append, width_append]
  omega

end Position

open Position

/-- A place in front of a character of a text, or behind the last one. -/
def Location.Met (source : Text) (place : Location) : Prop :=
  ∃ left, left <:+ source.glyphs ∧ place = source.placeOf left

/-- The reading positions that a text is read through, one character after the other. -/
inductive Cursor.Reached (source : Text) : Cursor → Prop
  | start : Reached source (.ofText source)
  | next {cursor behind : Cursor} {glyph : Glyph} (reached : Reached source cursor)
      (read : cursor.next? = some (glyph, behind)) : Reached source behind

def Text.Countable (source : Text) : Prop :=
  ∀ place : Location, place.Met source →
    (place.line - 1).toNat < 0x100000000 ∧
      width (lastLine (source.take place.byte.toNat)).chars < 0x100000000

variable {source : Text} {place : Location} {cursor : Cursor} {middle left : List Glyph}

theorem met_placeOf (within : left <:+ source.glyphs) : (source.placeOf left).Met source :=
  ⟨left, within, rfl⟩

theorem Cursor.Reached.suffix (reached : cursor.Reached source) :
    cursor.rest <:+ source.glyphs ∧ cursor.stop = source.stop := by
  induction reached with
  | start => exact ⟨List.suffix_refl _, rfl⟩
  | @next cursor behind glyph _ read induction =>
      unfold Cursor.next? at read
      split at read
      next => cases read
      next rest remains =>
        obtain ⟨rfl, rfl⟩ := Prod.mk.inj (Option.some.inj read)
        rw [remains] at induction
        exact ⟨(List.suffix_cons _ _).trans induction.1, induction.2⟩

theorem Cursor.Reached.met (reached : cursor.Reached source) : cursor.location.Met source := by
  obtain ⟨within, stop⟩ := reached.suffix
  refine ⟨cursor.rest, within, ?_⟩
  rw [placeOf, ← stop]

theorem Text.countable_of_length (short : source.length < 0x100000000) : source.Countable := by
  rintro place ⟨left, within, rfl⟩
  have line := line_placeOf within
  have taken : (source.take (source.placeOf left).byte.toNat).length ≤ source.length :=
    List.length_take_le' _ _
  generalize source.take (source.placeOf left).byte.toNat = before at line taken ⊢
  have lines := List.count_le_length (a := lineFeed) (l := before)
  have wide := width_chars (lastLine before)
  obtain ⟨above, split, -, -⟩ := exists_above before
  have part := congrArg List.length split
  rw [List.length_append] at part
  omega

theorem Location.Met.ofLocation_eq (met : place.Met source) (countable : source.Countable) :
    ofLocation source place =
      ⟨(place.line - 1).toNat, width (lastLine (source.take place.byte.toNat)).chars⟩ := by
  obtain ⟨lines, columns⟩ := countable place met
  obtain ⟨left, within, rfl⟩ := met
  have counted : ¬ (source.placeOf left).line ≤ 0 := by
    have line := line_placeOf within
    omega
  simp only [ofLocation, if_neg counted, word, Nat.mod_eq_of_lt lines, Nat.mod_eq_of_lt columns]

/-- Behind some characters the position is another one, further on. -/
theorem before_placeOf (countable : source.Countable) (within : middle ++ left <:+ source.glyphs)
    (nonempty : middle ≠ []) :
    (ofLocation source (source.placeOf (middle ++ left))).Before
      (ofLocation source (source.placeOf left)) := by
  have later : left <:+ source.glyphs := (List.suffix_append _ _).trans within
  have lineStart := line_placeOf within
  have lineStop := line_placeOf later
  rw [(met_placeOf within).ofLocation_eq countable, (met_placeOf later).ofLocation_eq countable]
  obtain ⟨passed, cut⟩ := within
  obtain ⟨first, second, third, split, start, stop, shown, -⟩ := glyphs_cut cut.symm
  have more : second ≠ [] := by
    rintro rfl
    exact nonempty (List.map_eq_nil_iff.mp shown.symm)
  obtain ⟨bytes, front, -⟩ := pieces_cut split
  rw [← List.append_assoc] at split
  obtain ⟨bytesThrough, through, -⟩ := pieces_cut split
  rw [ofPieces_append] at bytesThrough through
  have takenStart : source.take (source.placeOf (middle ++ left)).byte.toNat = ofPieces first := by
    rw [start, bytes, Int.toNat_natCast, List.take_left]
  have takenStop : source.take (source.placeOf left).byte.toNat = ofPieces first ++ ofPieces second := by
    rw [stop, bytesThrough, ← Int.natCast_add, Int.toNat_natCast, ← List.length_append, List.take_left]
  rw [takenStart] at lineStart
  rw [takenStop, List.count_append] at lineStop
  rw [takenStart, takenStop]
  -- What lies between leads to a later line, or makes the last one wider.
  by_cases feed : lineFeed ∈ ofPieces second
  · have one := List.count_pos_iff.mpr feed
    left
    dsimp only
    omega
  · have noFeed := List.count_eq_zero_of_not_mem feed
    right
    refine ⟨?_, width_lastLine_lt feed ?_ more⟩
    · dsimp only
      omega
    · rw [through, front]

/-- Positions grow strictly with the bytes of places. -/
theorem before_of_byte_lt {other : Location} (countable : source.Countable) (met : place.Met source)
    (metOther : other.Met source) (below : place.byte < other.byte) :
    (ofLocation source place).Before (ofLocation source other) := by
  obtain ⟨left, within, rfl⟩ := met
  obtain ⟨rest, withinRest, rfl⟩ := metOther
  rcases List.suffix_or_suffix_of_suffix within withinRest with ⟨front, rfl⟩ | ⟨front, rfl⟩
  · have back := placeOf_le withinRest
    omega
  · apply before_placeOf countable within
    rintro rfl
    exact absurd below (Int.lt_irrefl _)

end ScopeLint
