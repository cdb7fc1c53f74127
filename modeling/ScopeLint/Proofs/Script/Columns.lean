import ScopeLint.Proofs.Script.LineForms
import ScopeLint.Proofs.Script.UsagePlaces
import ScopeLint.Proofs.Source.Lookahead
import ScopeLint.Terminal.Snippet

/-!
The columns of a script's spans. A span that ends on the line it starts on covers at least one column, and
no column behind the characters of that line, wherever the line has carriage returns.
-/

namespace ScopeLint

open Text Position

namespace Text

/-- A line of a text by its number, without its line break. -/
def numberedLine (source : Text) (number : Nat) : Text :=
  ((source.splitOn lineFeed).getD (number - 1) []).dropEnding [carriageReturn]

end Text

/-- A span that covers columns of the line it starts on, counted from one. -/
structure Span.InLine (source : Text) (span : Span) : Prop where
  line : 1 ≤ span.start.line
  first : 1 ≤ span.start.col
  filled : span.start.col < span.stop.col
  last : span.stop.col ≤ (source.numberedLine span.start.line.toNat).chars.length + 1

namespace Text

variable {source : Text} {middle left : List Glyph}

theorem sourceLine_cases (source : Text) (number : Nat) :
    Snippet.sourceLine source number = [] ∨
      Snippet.sourceLine source number = source.dropMark.numberedLine number := by
  unfold Snippet.sourceLine numberedLine
  split
  next => exact .inl rfl
  next =>
    dsimp only
    generalize source.dropMark.splitOn lineFeed = lines
    rw [List.getD_eq_getElem?_getD, List.getD_eq_getElem?_getD]
    cases found : (lines.takeWhile fun line => line.length < Snippet.lineLimit)[number - 1]? with
    | none => exact .inl rfl
    | some line =>
        obtain ⟨rest, split⟩ := List.takeWhile_prefix (l := lines) fun line =>
          decide (line.length < Snippet.lineLimit)
        have same : lines[number - 1]? = some line := by
          rw [← split, List.getElem?_append_left (List.getElem?_eq_some_iff.mp found).1, found]
        exact .inr (by rw [same])

theorem visible_dropEnding (text : Text) : (text.dropEnding [carriageReturn]).visible = text.visible := by
  obtain ⟨ending, split, rfl | ⟨rfl, -⟩⟩ := exists_ending text
  · generalize text.dropEnding [carriageReturn] = front at split
    have ascii : IsAscii '\r' := ⟨by decide, by decide⟩
    have mark : pieces (front ++ [carriageReturn]) = _ := pieces_mark ascii front []
    rw [split, visible, visible, chars, chars, mark, List.map_append, List.filter_append]
    simp [pieces, Utf8.piecesFrom]
  · rw [List.append_nil] at split
    rw [← split]

theorem col_le (within : left <:+ source.glyphs) :
    (source.placeOf left).col ≤
      1 + (source.numberedLine (source.placeOf left).line.toNat).chars.length := by
  obtain ⟨before, behind, split, apart, stop, byte, -⟩ := exists_before within
  obtain ⟨above, lines, inLine, fresh⟩ := exists_above before
  have number := line_placeOf within
  have taken : source.take (source.placeOf left).byte.toNat = before := by
    rw [byte, Int.toNat_natCast, split, List.take_left]
  rw [taken] at number
  generalize lastLine before = line at lines inLine
  subst lines
  rw [List.append_assoc] at split
  rw [split, pieces_above fresh, pieces_above fresh, List.append_assoc] at apart
  have parts := List.append_cancel_left apart
  have column := stop_col fresh inLine
  rw [stop] at column
  rw [List.count_append, List.count_eq_zero_of_not_mem inLine, Nat.add_zero] at number
  have index : (source.placeOf left).line.toNat - 1 = above.count lineFeed := by omega
  -- The line goes on behind the place up to the next line feed.
  have rest : (behind.takeWhile (· ≠ lineFeed) ++ behind.dropWhile (· ≠ lineFeed)) = behind :=
    List.takeWhile_append_dropWhile
  have head : ∀ byte ∈ (behind.dropWhile (· ≠ lineFeed)).head?, Utf8.isTail byte = false := by
    intro byte first
    have feed := List.head?_dropWhile_not (· ≠ lineFeed) behind
    rw [Option.mem_def.mp first] at feed
    obtain rfl : byte = lineFeed := by simpa using feed
    decide
  have found : (splitOn lineFeed (above ++ (line ++ behind)))[above.count lineFeed]? = _ :=
    splitOn_above fresh inLine
  rw [← split] at found
  have shown : source.numberedLine (source.placeOf left).line.toNat =
      Text.dropEnding (line ++ behind.takeWhile (· ≠ lineFeed)) [carriageReturn] := by
    rw [numberedLine, index, List.getD_eq_getElem?_getD, found]
    rfl
  generalize behind.takeWhile (· ≠ lineFeed) = inner at rest shown
  generalize behind.dropWhile (· ≠ lineFeed) = outer at rest head
  subst rest
  rw [← List.append_assoc, pieces_append _ head, pieces_append _ head, ← List.append_assoc] at parts
  have joined : (line ++ inner).visible = line.visible ++ visible inner := by
    rw [visible, chars, List.append_cancel_right parts, List.map_append, List.filter_append]
    rfl
  have fewer : (Text.dropEnding (line ++ inner) [carriageReturn]).visible.length ≤
      (Text.dropEnding (line ++ inner) [carriageReturn]).chars.length := List.length_filter_le _ _
  rw [visible_dropEnding, joined, List.length_append] at fewer
  rw [column, shown]
  omega

theorem col_lt (within : middle ++ left <:+ source.glyphs) (nonempty : middle ≠ [])
    (inLine : (source.placeOf (middle ++ left)).line = (source.placeOf left).line) :
    1 ≤ (source.placeOf (middle ++ left)).col ∧
      (source.placeOf (middle ++ left)).col < (source.placeOf left).col := by
  obtain ⟨taken, cut⟩ := within
  have paced : Glyph.Paced .start (taken ++ middle ++ left) := by
    rw [List.append_assoc, cut]
    exact Glyph.paced_locate .start 0 source.pieces
  rw [placeOf_eq cut.symm] at inLine ⊢
  rw [← List.append_assoc] at cut
  rw [placeOf_eq cut.symm] at inLine ⊢
  obtain ⟨lineStart, colStart⟩ := paced.front.front.place_eq
  obtain ⟨lineStop, colStop⟩ := paced.front.place_eq
  rw [List.map_append, List.count_append] at lineStop
  have plain : (middle.map Glyph.char).count '\n' = 0 := by omega
  have all : ∀ char ∈ (middle.map Glyph.char).reverse, decide (char ≠ '\n') = true := by
    intro char member
    rw [decide_eq_true_eq]
    rintro rfl
    exact List.count_eq_zero.mp plain (List.mem_reverse.mp member)
  have width := List.length_pos_iff.mpr nonempty
  rw [List.map_append, List.reverse_append, List.takeWhile_append_of_pos all, List.length_append,
    List.length_reverse, List.length_map] at colStop
  omega

/-- A part of a text on one line covers columns of that line. -/
theorem inLine_of_met {span : Span} (start : span.start.Met source) (stop : span.stop.Met source)
    (filled : span.start.byte < span.stop.byte) (same : span.start.line = span.stop.line) :
    span.InLine source := by
  obtain ⟨left, within, begins⟩ := start
  obtain ⟨rest, withinRest, ends⟩ := stop
  have line := line_placeOf within
  have last := col_le withinRest
  rw [← begins] at line
  rw [← ends, ← same, Int.add_comm] at last
  rw [begins, ends] at filled same
  rcases List.suffix_or_suffix_of_suffix within withinRest with ⟨front, rfl⟩ | ⟨front, rfl⟩
  · have back := placeOf_le withinRest
    omega
  · have nonempty : front ≠ [] := by
      rintro rfl
      exact absurd filled (Int.lt_irrefl _)
    obtain ⟨first, less⟩ := col_lt within nonempty same
    rw [← begins] at first less
    rw [← ends] at less
    exact ⟨by omega, first, less, last⟩

end Text

namespace Line

variable {source : Text} {line : Line}

theorem eq_of_mem_numbered {first offset : Nat} {texts : List Text}
    (member : line ∈ numbered first offset texts) :
    ∃ index text, texts[index]? = some text ∧ line.number = first + index ∧
      line.text = text.dropEnding [carriageReturn] := by
  induction texts generalizing first offset with
  | nil => cases member
  | cons text rest induction =>
      rcases List.mem_cons.mp member with rfl | later
      · exact ⟨0, text, rfl, rfl, rfl⟩
      · obtain ⟨index, found, listed, number, same⟩ := induction later
        exact ⟨index + 1, found, listed, by omega, same⟩

theorem text_eq (member : line ∈ ofSource source) :
    1 ≤ line.number ∧ line.text = source.numberedLine line.number := by
  obtain ⟨index, text, found, number, same⟩ := eq_of_mem_numbered member
  refine ⟨by omega, ?_⟩
  rw [number, same, numberedLine, Nat.add_sub_cancel_left, List.getD_eq_getElem?_getD, found]
  rfl

theorem cols_span {piece : Piece} (member : piece ∈ line.text.pieces)
    (dark : isBlank piece.char = false) :
    1 ≤ line.span.start.col ∧ line.span.start.col < line.span.stop.col ∧
      line.span.stop.col ≤ line.text.chars.length + 1 := by
  obtain ⟨front, behind, split⟩ := List.append_of_mem member
  have before := List.length_takeWhile_append_cons_le (fun piece => isBlank piece.char) dark front behind
  have after := List.length_takeWhile_append_cons_le (fun piece => isBlank piece.char) dark
    behind.reverse front.reverse
  have backward : line.text.pieces.reverse = behind.reverse ++ piece :: front.reverse := by
    rw [split, List.reverse_append, List.reverse_cons, List.append_assoc, List.singleton_append]
  have total := congrArg List.length split
  rw [← backward, List.length_reverse] at after
  rw [← split] at before
  rw [List.length_append, List.length_cons] at total
  simp only [span, locate, chars, List.length_map, List.length_take]
  omega

theorem span_of_import {stated : Import} (states : line.import? = some stated) :
    stated.span = line.span ∧ ∃ piece ∈ line.text.pieces, isBlank piece.char = false := by
  obtain ⟨target, named, rfl⟩ := Option.map_eq_some_iff.mp states
  obtain ⟨lead, front, gap, kept, trail, comment, importing, -⟩ := importText?_iff.mp named
  obtain ⟨dot, rfl, dotted⟩ : ∃ dot, front = [dot] ∧ foldChar dot.char = '.' := by
    have spells := importing.opens.spells
    cases front with
    | nil => cases spells
    | cons dot rest =>
        obtain ⟨dotted, nothing⟩ := List.cons.inj spells
        exact ⟨dot, by rw [List.map_eq_nil_iff.mp nothing], dotted⟩
  have same := foldChar_eq ⟨by decide, by decide⟩ (by decide) dotted
  refine ⟨rfl, dot, ?_, by rw [same]; decide⟩
  rw [importing.opens.split]
  simp

theorem span_of_testcase {stated : Testcase} (states : line.testcase? = some stated) :
    stated.span = line.span ∧ ∃ piece ∈ line.text.pieces, isBlank piece.char = false := by
  obtain ⟨lead, front, gap, opening, inner, closing, behind, testing, rfl⟩ := testcase?_iff.mp states
  refine ⟨rfl, opening, ?_, by rw [testing.opening]; decide⟩
  rw [testing.opens.split]
  simp

end Line

namespace Script

variable {text : Text} {script : Script}

theorem findings_filled (accepted : read text = .ok script) :
    ∀ span ∈ script.definitions.map Definition.span ++ script.usages.map Usage.span,
      span.start.byte < span.stop.byte := by
  obtain ⟨tokens, tokenized, same⟩ := Except.exists_of_bind accepted
  obtain rfl := Except.ok.inj same
  intro span member
  obtain ⟨found, listed, rfl⟩ := List.mem_map.mp ((spans_perm _).mem_iff.mp member)
  have reported := (found_perm_reports text.dropMark tokens).mem_iff.mp listed
  exact (report_bounds (Token.nested_of_read tokenized) found reported).1.filled

/-- A span of a script that ends on the line it starts on covers columns of that line. -/
theorem spans_inLine (accepted : read text = .ok script) :
    ∀ span ∈ script.spans, span.start.line = span.stop.line →
      span.InLine text.dropMark := by
  have lines : script.imports = (Line.ofSource text.dropMark).filterMap Line.import? ∧
      script.testcases = (Line.ofSource text.dropMark).filterMap Line.testcase? := by
    obtain ⟨tokens, -, same⟩ := Except.exists_of_bind accepted
    obtain rfl := Except.ok.inj same
    exact ⟨rfl, rfl⟩
  have ofLine {span : Span} {line : Line} (listed : line ∈ Line.ofSource text.dropMark)
      (states : span = line.span ∧ ∃ piece ∈ line.text.pieces, isBlank piece.char = false) :
      span.InLine text.dropMark := by
    obtain ⟨rfl, piece, member, dark⟩ := states
    obtain ⟨number, same⟩ := Line.text_eq listed
    obtain ⟨first, filled, last⟩ := Line.cols_span member dark
    rw [same] at last
    exact ⟨Int.ofNat_le.mpr number, first, filled, last⟩
  have ofFinding {span : Span} (inLine : span.start.line = span.stop.line)
      (member : span ∈ script.definitions.map Definition.span ++ script.usages.map Usage.span) :
      span.InLine text.dropMark := by
    obtain ⟨start, stop⟩ := findings_met accepted span member
    exact inLine_of_met start stop (findings_filled accepted span member) inLine
  intro span member inLine
  simp only [spans, lines.1, lines.2, List.mem_append, List.mem_map (l := List.filterMap _ _)] at member
  obtain ((⟨stated, among, rfl⟩ | defined) | used) | ⟨stated, among, rfl⟩ := member
  · obtain ⟨line, listed, states⟩ := List.mem_filterMap.mp among
    exact ofLine listed (Line.span_of_import states)
  · exact ofFinding inLine (List.mem_append_left _ defined)
  · exact ofFinding inLine (List.mem_append_right _ used)
  · obtain ⟨line, listed, states⟩ := List.mem_filterMap.mp among
    exact ofLine listed (Line.span_of_testcase states)

end Script

end ScopeLint
