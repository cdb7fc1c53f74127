import ScopeLint.Editor.Position
import ScopeLint.Proofs.Source.LineEndings
import ScopeLint.Terminal.Snippet

/-!
Places in texts whose carriage returns all belong to line breaks. Such a place cuts its line in front
of a character and behind no carriage return, so whoever counts line feeds and characters from the
bytes in front of it, or looks its line up by number or by offset, comes to the same line and column.
-/

namespace ScopeLint

namespace Position

open Text

variable {front line : Text}

theorem lastLine_append (front : Text) (inLine : lineFeed ∉ line) :
    lastLine (front ++ line) = lastLine front ++ line := by
  have all : ∀ byte ∈ line.reverse, decide (byte ≠ lineFeed) = true := by
    intro byte member
    rw [decide_eq_true_eq]
    rintro rfl
    exact inLine (List.mem_reverse.mp member)
  rw [lastLine, List.reverse_append, List.takeWhile_append_of_pos all, List.reverse_append,
    List.reverse_reverse]
  rfl

theorem lastLine_of_fresh (fresh : ∀ last ∈ front.getLast?, last = lineFeed) : lastLine front = [] := by
  rw [← List.head?_reverse] at fresh
  rw [lastLine]
  cases backward : front.reverse with
  | nil => rfl
  | cons last rest =>
      rw [backward] at fresh
      simp [fresh last rfl]

theorem exists_above (text : Text) :
    ∃ above, text = above ++ lastLine text ∧ lineFeed ∉ lastLine text ∧
      ∀ last ∈ above.getLast?, last = lineFeed := by
  refine ⟨(text.reverse.dropWhile (· ≠ lineFeed)).reverse, ?_, ?_, ?_⟩
  · rw [lastLine, ← List.reverse_append, List.takeWhile_append_dropWhile, List.reverse_reverse]
  · intro member
    have other := List.mem_takeWhile_imp (List.mem_reverse.mp member)
    simp at other
  · intro last ends
    rw [List.getLast?_reverse] at ends
    have feed := List.head?_dropWhile_not (· ≠ lineFeed) text.reverse
    rw [Option.mem_def.mp ends] at feed
    simpa using feed

theorem units_of_code {code : Nat} (low : code < 0x10000) : units (Char.ofNat code) = 1 := by
  apply if_pos
  by_cases valid : code.isValidChar
  · rw [Char.ofNat, dif_pos valid]
    exact low
  · rw [Char.ofNat, dif_neg valid]
    decide

/-- No character takes more 16-bit units than bytes. -/
theorem units_lead (first : UInt8) (rest : Text) :
    units (Utf8.lead first rest).char ≤ (Utf8.lead first rest).bytes.length := by
  have replaced : units Utf8.replacement = 1 := by decide
  have payload (byte : UInt8) : Utf8.payload byte < 0x40 := Nat.mod_lt _ (by decide)
  unfold Utf8.lead
  split
  next ascii =>
    have code : first.toNat < 0x80 := UInt8.lt_iff_toNat_lt.mp ascii
    rw [units_of_code (by omega), List.length_singleton]
  next =>
    split
    next => exact replaced.le
    next second rest =>
      split
      next =>
        have tail := payload second
        rw [units_of_code (by omega)]
        simp
      next =>
        split
        next => exact replaced.le
        next third rest =>
          split
          next =>
            have tails := And.intro (payload second) (payload third)
            rw [units_of_code (by omega)]
            simp
          next =>
            split
            next => exact replaced.le
            next fourth rest =>
              split
              next =>
                rw [units]
                split <;> simp
              next => exact replaced.le

theorem width_chars (text : Text) : width text.chars ≤ text.length := by
  generalize decoded : text.pieces = pieces
  induction pieces generalizing text with
  | nil =>
      rw [chars, decoded]
      exact Nat.zero_le _
  | cons piece others induction =>
      cases text with
      | nil => simp [pieces, Utf8.piecesFrom] at decoded
      | cons first rest =>
          obtain ⟨left, split, same⟩ := pieces_cons first rest
          rw [same] at decoded
          obtain ⟨rfl, later⟩ := List.cons.inj decoded
          rw [chars, same, List.map_cons, width, List.foldr_cons, split, List.length_append]
          exact Nat.add_le_add (units_lead first rest) (induction left later)

end Position

namespace Glyph

theorem col_stopOf_line {pieces : List Piece} (inLine : ∀ piece ∈ pieces, piece.char ≠ '\n')
    (start : Location) (held : Nat) :
    (stopOf start (locate start held pieces)).col =
      start.col + ((pieces.map Piece.char).filter fun char => char ≠ '\r').length := by
  induction pieces generalizing start held with
  | nil => simp [locate, stopOf]
  | cons piece rest induction =>
      have later := induction fun next member => inLine next (List.mem_cons_of_mem _ member)
      rw [locate]
      split
      next carriage => simp [carriage, later]
      next visible =>
        rw [stopOf, later, advance_col, if_neg (inLine piece List.mem_cons_self)]
        simp [visible]
        omega

end Glyph

namespace Text

open Position

variable {source above line behind : Text} {place : Location}

theorem pieces_above (fresh : ∀ last ∈ above.getLast?, last = lineFeed) (behind : Text) :
    (above ++ behind).pieces = above.pieces ++ behind.pieces := by
  rcases List.eq_nil_or_concat above with rfl | ⟨upper, last, rfl⟩
  · rfl
  · obtain rfl := fresh last (by simp)
    have single := pieces_line upper []
    rw [List.concat_eq_append, List.append_assoc, List.singleton_append, pieces_line, single]
    simp [pieces, Utf8.piecesFrom]

/-- The line that holds a place, by the line feeds in front of it. -/
theorem splitOn_above (fresh : ∀ last ∈ above.getLast?, last = lineFeed) (inLine : lineFeed ∉ line) :
    (splitOn lineFeed (above ++ (line ++ behind)))[above.count lineFeed]? =
      some (line ++ behind.takeWhile (· ≠ lineFeed)) := by
  have all : ∀ byte ∈ line, decide (byte ≠ lineFeed) = true := by
    intro byte member
    rw [decide_eq_true_eq]
    rintro rfl
    exact inLine member
  have first := head_splitOn lineFeed (line ++ behind)
  rw [List.takeWhile_append_of_pos all] at first
  rcases List.eq_nil_or_concat above with rfl | ⟨upper, last, rfl⟩
  · exact first
  · obtain rfl := fresh last (by simp)
    have length := length_splitOn lineFeed upper
    rw [splitOn_eq] at length first
    rw [List.concat_eq_append, List.append_assoc, List.singleton_append, splitOn_eq,
      List.splitOn_append_cons_self, List.count_append, List.count_singleton_self, ← length,
      List.getElem?_append_right (Nat.le_refl _), Nat.sub_self, first]

/-- Columns count the characters of the last line, carriage returns left out. -/
theorem stop_col (fresh : ∀ last ∈ above.getLast?, last = lineFeed) (inLine : lineFeed ∉ line) :
    (above ++ line).stop.col = 1 + line.visible.length := by
  have ends : line.stop.col = 1 + line.visible.length :=
    Glyph.col_stopOf_line (char_ne_of_not_mem ⟨by decide, by decide⟩ inLine) .start 0
  rcases List.eq_nil_or_concat above with rfl | ⟨upper, last, rfl⟩
  · exact ends
  · obtain rfl := fresh last (by simp)
    rw [List.concat_eq_append, List.append_assoc, List.singleton_append, stop_line]
    exact ends

/-- Every carriage return is part of a line break. -/
def ReturnsEndLines (source : Text) : Prop :=
  ∀ front behind, source = front ++ carriageReturn :: behind → behind.head? = some lineFeed

theorem returnsEndLines_cons (byte : UInt8) (rest : Text) :
    ReturnsEndLines (byte :: rest) ↔
      (byte = carriageReturn → rest.head? = some lineFeed) ∧ ReturnsEndLines rest := by
  constructor
  · intro returns
    refine ⟨fun same => returns [] rest (by rw [same]; rfl), ?_⟩
    intro front behind split
    exact returns (byte :: front) behind (by rw [split]; rfl)
  · rintro ⟨first, returns⟩ front behind split
    cases front with
    | nil =>
        obtain ⟨same, rfl⟩ := List.cons.inj split
        exact first same
    | cons next front => exact returns front behind (List.cons.inj split).2

instance ReturnsEndLines.decidable : (source : Text) → Decidable source.ReturnsEndLines
  | [] => isTrue fun front behind split => by cases front <;> cases split
  | byte :: rest =>
      have := decidable rest
      decidable_of_iff _ (returnsEndLines_cons byte rest).symm

theorem ReturnsEndLines.not_mem (returns : source.ReturnsEndLines)
    (split : source = above ++ (line ++ behind)) (inLine : lineFeed ∉ line)
    (ends : behind.head? = some lineFeed → ¬ [carriageReturn] <:+ line) : carriageReturn ∉ line := by
  intro member
  obtain ⟨first, second, rfl⟩ := List.append_of_mem member
  have feed := returns (above ++ first) (second ++ behind) (by rw [split]; simp)
  cases second with
  | nil => exact ends feed (List.suffix_append _ _)
  | cons next rest =>
      obtain rfl := Option.some.inj feed
      exact inLine (by simp)

theorem dropEnding_append (plain : carriageReturn ∉ line) (rest : Text) :
    (line ++ rest).dropEnding [carriageReturn] = line ++ rest.dropEnding [carriageReturn] := by
  obtain ⟨ending, cut, rfl | ⟨rfl, other⟩⟩ := exists_ending rest
  · rw [cut, ← List.append_assoc, dropEnding_return, dropEnding_return]
  · rw [List.append_nil] at cut
    rw [← cut]
    apply if_neg
    intro ends
    have suffix := List.isSuffixOf_iff_suffix.mp ends
    cases rest with
    | nil =>
        rw [List.append_nil] at suffix
        exact plain (suffix.subset List.mem_cons_self)
    | cons first rest =>
        exact other (List.suffix_of_suffix_length_le suffix (List.suffix_append _ _) (by simp))

theorem exists_lineEnd (behind : Text) :
    ∃ rest, behind = Text.dropEnding (behind.takeWhile (· ≠ lineFeed)) [carriageReturn] ++ rest ∧
      ∀ byte ∈ rest.head?, Utf8.isTail byte = false := by
  obtain ⟨ending, cut, ends⟩ := exists_ending (behind.takeWhile (· ≠ lineFeed))
  refine ⟨ending ++ behind.dropWhile (· ≠ lineFeed), ?_, ?_⟩
  · rw [← List.append_assoc, ← cut, List.takeWhile_append_dropWhile]
  · intro byte head
    rcases ends with rfl | ⟨rfl, -⟩
    · obtain rfl := Option.some.inj head
      decide
    · have feed := List.head?_dropWhile_not (· ≠ lineFeed) behind
      rw [List.nil_append] at head
      rw [Option.mem_def.mp head] at feed
      obtain rfl : byte = lineFeed := by simpa using feed
      decide

theorem visible_plain (plain : carriageReturn ∉ line) : line.visible = line.chars := by
  apply List.filter_eq_self.mpr
  intro char member
  obtain ⟨piece, inside, rfl⟩ := List.mem_map.mp member
  have ascii : IsAscii '\r' := ⟨by decide, by decide⟩
  simpa using char_ne_of_not_mem ascii plain piece inside

end Text

open Text Position

/-- A place on a line of a text, behind the lines above it and a part of the line itself. -/
structure Location.Stands (source above line behind : Text) (place : Location) : Prop where
  split : source = above ++ (line ++ behind)
  fresh : ∀ last ∈ above.getLast?, last = lineFeed
  inLine : lineFeed ∉ line
  plain : carriageReturn ∉ line
  apart : (line ++ behind).pieces = line.pieces ++ behind.pieces
  byte : place.byte = above.length + line.length
  number : place.line = 1 + above.count lineFeed
  col : place.col = 1 + line.chars.length

def Location.Standing (source : Text) (place : Location) : Prop :=
  ∃ above line behind, place.Stands source above line behind

namespace Text

variable {source : Text} {left : List Glyph}

theorem standing_placeOf (returns : source.ReturnsEndLines) (within : left <:+ source.glyphs) :
    (source.placeOf left).Standing source := by
  obtain ⟨before, behind, split, apart, stop, byte, ends⟩ := exists_before within
  obtain ⟨above, lines, inLine, fresh⟩ := exists_above before
  have number := line_placeOf within
  generalize lastLine before = line at lines inLine
  subst lines
  rw [List.append_assoc] at split
  have plain : carriageReturn ∉ line := by
    apply returns.not_mem split inLine
    rintro - ⟨rest, rfl⟩
    exact ends ⟨above ++ rest, by simp⟩
  refine ⟨above, line, behind, split, fresh, inLine, plain, ?_, ?_, ?_, ?_⟩
  · rw [split, pieces_above fresh, pieces_above fresh, List.append_assoc] at apart
    exact List.append_cancel_left apart
  · rw [byte, List.length_append]
    rfl
  · rw [number, byte, Int.toNat_natCast, split, ← List.append_assoc, List.take_left,
      List.count_append, List.count_eq_zero_of_not_mem inLine]
    rfl
  · rw [← stop, stop_col fresh inLine, visible_plain plain]

end Text

namespace Location.Stands

variable {source above line behind : Text} {place : Location}

theorem take_eq (stands : place.Stands source above line behind) :
    source.take place.byte.toNat = above ++ line := by
  have length : place.byte.toNat = (above ++ line).length := by
    rw [stands.byte, List.length_append]
    rfl
  rw [length, stands.split, ← List.append_assoc, List.take_left]

theorem lastLine_eq (stands : place.Stands source above line behind) :
    lastLine (source.take place.byte.toNat) = line := by
  rw [stands.take_eq, lastLine_append above stands.inLine, lastLine_of_fresh stands.fresh]
  rfl

theorem count_eq (stands : place.Stands source above line behind) :
    (source.take place.byte.toNat).count lineFeed = above.count lineFeed := by
  rw [stands.take_eq, List.count_append, List.count_eq_zero_of_not_mem stands.inLine]
  rfl

theorem byte_le (stands : place.Stands source above line behind) :
    0 ≤ place.byte ∧ place.byte ≤ source.length := by
  rw [stands.byte, stands.split]
  simp only [List.length_append]
  omega

theorem splitOn_eq (stands : place.Stands source above line behind) :
    (source.splitOn lineFeed)[above.count lineFeed]? =
      some (line ++ behind.takeWhile (· ≠ lineFeed)) := by
  rw [stands.split]
  exact splitOn_above stands.fresh stands.inLine

theorem lineAt_eq (stands : place.Stands source above line behind) :
    lineAt source place.byte =
      Text.dropEnding (line ++ behind.takeWhile (· ≠ lineFeed)) [carriageReturn] := by
  have length : place.byte = (above ++ line).length := by
    rw [stands.byte, List.length_append]
    rfl
  have last := stands.lastLine_eq
  rw [stands.take_eq] at last
  rw [length, stands.split, ← List.append_assoc, lineAt_cut]
  exact congrArg (fun front => Text.dropEnding (front ++ _) _) last

/-- Snippets show the line that comments are looked for on. -/
theorem sourceLine_eq (stands : place.Stands source above line behind)
    (unmarked : source.dropMark = source)
    (short : ∀ text ∈ source.splitOn lineFeed, text.length < Snippet.lineLimit) :
    Snippet.sourceLine source place.line.toNat = lineAt source place.byte := by
  have number : place.line.toNat = above.count lineFeed + 1 := by
    have same := stands.number
    omega
  have all : (source.splitOn lineFeed).takeWhile (fun text => text.length < Snippet.lineLimit) =
      source.splitOn lineFeed := by
    apply List.takeWhile_eq_self_iff.mpr
    intro text member
    exact decide_eq_true (short text member)
  have found : (source.splitOn lineFeed).getD (above.count lineFeed) [] =
      line ++ behind.takeWhile (· ≠ lineFeed) := by
    rw [List.getD_eq_getElem?_getD, stands.splitOn_eq]
    rfl
  simp only [Snippet.sourceLine, number, if_neg (Nat.succ_ne_zero _), unmarked, all,
    Nat.add_sub_cancel, found, stands.lineAt_eq]

theorem take_chars_lineAt (stands : place.Stands source above line behind) :
    (lineAt source place.byte).chars.take (place.col - 1).toNat = line.chars := by
  obtain ⟨rest, cut, head⟩ := exists_lineEnd behind
  have apart := stands.apart
  have width : (place.col - 1).toNat = line.chars.length := by
    have same := stands.col
    omega
  rw [stands.lineAt_eq, dropEnding_append stands.plain]
  generalize Text.dropEnding (behind.takeWhile (· ≠ lineFeed)) [carriageReturn] = shown at cut ⊢
  rw [cut, ← List.append_assoc, pieces_append _ head, pieces_append _ head, ← List.append_assoc] at apart
  rw [width, chars, chars, List.append_cancel_right apart, List.map_append, List.take_left]

theorem length_lt (stands : place.Stands source above line behind)
    (short : ∀ text ∈ source.splitOn lineFeed, text.length < Snippet.lineLimit) :
    line.length < Snippet.lineLimit := by
  have whole := short _ (List.mem_of_getElem? stands.splitOn_eq)
  rw [List.length_append] at whole
  omega

theorem ofLocation_eq (stands : place.Stands source above line behind)
    (short : ∀ text ∈ source.splitOn lineFeed, text.length < Snippet.lineLimit) :
    Position.ofLocation source place =
      ⟨Position.word (place.line - 1).toNat, Position.width line.chars⟩ := by
  have counted : ¬ place.line ≤ 0 := by
    have same := stands.number
    omega
  have units := width_chars line
  have bytes := stands.length_lt short
  have fits : Position.word (Position.width line.chars) = Position.width line.chars := by
    apply Nat.mod_eq_of_lt
    rw [Snippet.lineLimit] at bytes
    omega
  simp only [Position.ofLocation, if_neg counted, stands.lastLine_eq, fits]

end Location.Stands

end ScopeLint
