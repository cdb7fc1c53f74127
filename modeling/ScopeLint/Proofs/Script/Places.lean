import ScopeLint.Proofs.Script.Findings
import ScopeLint.Proofs.Script.Lines
import ScopeLint.Proofs.Source.Places

/-!
All places of a script agree. The places of tokens come from glyphs and those of imports and test
cases from lines; both stand in the text as it counts lines and columns, so comments, snippets and
editors find the same line and the same part of it.
-/

namespace ScopeLint

open Text

namespace Text

variable {source : Text}

def standing (source : Text) (returns : source.ReturnsEndLines) : Respacing where
  source := source
  other := source
  place place _ := place.Standing source
  stops :=
    have nothing : [] <:+ source.glyphs := List.nil_suffix
    standing_placeOf returns nothing

theorem respaced_standing (returns : source.ReturnsEndLines) :
    Tree.Respaced (source.standing returns) [] source.glyphs source.glyphs :=
  have itself : source.standing returns =
      .itself source (Location.Standing source) fun _ => standing_placeOf returns := rfl
  itself ▸ Tree.Respaced.of_itself []

end Text

namespace Line

variable {source front behind : Text} {line : Line}

theorem Stands.plain (stands : line.Stands source front behind) (returns : source.ReturnsEndLines) :
    carriageReturn ∉ line.text :=
  returns.not_mem stands.split stands.inLine stands.broken

theorem Stands.standing (stands : line.Stands source front behind) (returns : source.ReturnsEndLines)
    {pieces : List Piece} (within : pieces <+: line.text.pieces) :
    (line.locate pieces).Standing source := by
  obtain ⟨more, same⟩ := within
  obtain ⟨inner, decoded, decodedMore⟩ := pieces_cut same.symm
  have part : ∀ byte ∈ ofPieces pieces, byte ∈ line.text := by
    intro byte member
    rw [inner]
    exact List.mem_append_left _ member
  have head : ∀ byte ∈ behind.head?, Utf8.isTail byte = false := by
    intro byte first
    rcases stands.ends byte first with rfl | rfl <;> decide
  refine ⟨front, ofPieces pieces, ofPieces more ++ behind, ?_, stands.fresh,
    fun member => stands.inLine (part _ member), fun member => stands.plain returns (part _ member),
    ?_, ?_, ?_, ?_⟩
  · rw [stands.split, inner, List.append_assoc]
  · rw [← List.append_assoc, ← inner, pieces_append _ head, pieces_append _ head, decoded,
      decodedMore, ← same, List.append_assoc]
  · rw [locate, stands.offset]
  · rw [locate, stands.number]
    push_cast
    omega
  · rw [locate, chars, decoded, List.length_map]

theorem Stands.standing_span (stands : line.Stands source front behind)
    (returns : source.ReturnsEndLines) :
    line.span.start.Standing source ∧ line.span.stop.Standing source :=
  ⟨stands.standing returns (List.takeWhile_prefix _), stands.standing returns (List.take_prefix _ _)⟩

end Line

namespace Script

def spans (script : Script) : List Span :=
  script.imports.map Import.span ++ script.definitions.map Definition.span
    ++ script.usages.map Usage.span ++ script.testcases.map Testcase.span

/-- All places that come from reading a script: where it is refused, or the ends of its spans. -/
def places : Except SyntaxError Script → List Location
  | .error error => [error.place]
  | .ok script => script.spans.flatMap fun span => [span.start, span.stop]

variable {source : Text}

theorem standing_spans (returns : source.ReturnsEndLines) {tokens twins : List Token}
    (alike : Token.AllAlike (source.standing returns) tokens twins) :
    ∀ span ∈ (ofTokens source tokens).spans, span.start.Standing source ∧ span.stop.Standing source := by
  have ofFinding : ∀ found ∈ (Token.streams tokens).flatMap (findings source .symbol),
      found.span.start.Standing source ∧ found.span.stop.Standing source := by
    intro found member
    obtain ⟨other, reads⟩ := reads_found alike.streams found member
    exact ⟨reads.start, reads.stop⟩
  have ofLine : ∀ line ∈ Line.ofSource source,
      line.span.start.Standing source ∧ line.span.stop.Standing source := by
    intro line member
    obtain ⟨front, behind, stands⟩ := Line.exists_stands source line member
    exact stands.standing_span returns
  intro span member
  simp only [spans, ofTokens, List.mem_append, List.mem_map, List.mem_filterMap] at member
  obtain ((⟨_, ⟨line, listed, same⟩, rfl⟩ | ⟨_, ⟨found, listed, same⟩, rfl⟩) |
    ⟨_, ⟨found, listed, same⟩, rfl⟩) | ⟨_, ⟨line, listed, same⟩, rfl⟩ := member
  · obtain ⟨text, -, rfl⟩ := Option.map_eq_some_iff.mp same
    exact ofLine line listed
  · cases found with
    | definition found => exact Option.some.inj same ▸ ofFinding _ listed
    | usage found => cases same
  · cases found with
    | definition found => cases same
    | usage found => exact Option.some.inj same ▸ ofFinding _ listed
  · obtain ⟨text, -, rfl⟩ := Option.map_eq_some_iff.mp same
    exact ofLine line listed

theorem standing_places (unmarked : source.dropMark = source) (returns : source.ReturnsEndLines) :
    ∀ place ∈ places (read source), place.Standing source := by
  have respaced := respaced_standing returns
  intro place member
  rw [read_eq, unmarked] at member
  obtain ⟨error, other, here, -, -, stands⟩ | ⟨tokens, twins, here, -, alike⟩ :=
    (Token.read_agree respaced).outcomes
  · rw [show Token.read source = _ from here] at member
    exact List.mem_singleton.mp member ▸ stands
  · rw [show Token.read source = _ from here] at member
    obtain ⟨span, listed, ends⟩ := List.mem_flatMap.mp member
    obtain ⟨start, stop⟩ := standing_spans returns alike span listed
    rcases List.mem_pair.mp ends with rfl | rfl
    · exact start
    · exact stop

/-- Everything that counts agrees on places. In a text without a byte order mark whose carriage
returns all stand in front of line feeds, the line of a place that reading gives is counted by the
line feeds in front of it, and its column by the characters behind the last of them. If in addition
no line is too long for a snippet, the snippet for that line number shows the line around the byte
of the place, the column cuts off the same characters from it, and an editor is told the line
counted from zero, as a 32-bit word, and the 16-bit units of these characters. -/
theorem places_agree (unmarked : source.dropMark = source) (returns : source.ReturnsEndLines) :
    ∀ place ∈ places (read source),
      let before := source.take place.byte.toNat
      let front := Position.lastLine before
      0 ≤ place.byte ∧ place.byte ≤ source.length ∧
      place.line = 1 + before.count lineFeed ∧ place.col = 1 + front.chars.length ∧
      ((∀ line ∈ source.splitOn lineFeed, line.length < Snippet.lineLimit) →
        Snippet.sourceLine source place.line.toNat = lineAt source place.byte ∧
        (lineAt source place.byte).chars.take (place.col - 1).toNat = front.chars ∧
        Position.ofLocation source place =
          ⟨Position.word (place.line - 1).toNat, Position.width front.chars⟩) := by
  intro place member before front
  obtain ⟨above, line, behind, stands⟩ := standing_places unmarked returns place member
  have same : front = line := stands.lastLine_eq
  obtain ⟨low, high⟩ := stands.byte_le
  rw [same]
  refine ⟨low, high, ?_, stands.col, ?_⟩
  · rw [stands.number, stands.count_eq]
  · intro short
    exact ⟨stands.sourceLine_eq unmarked short, stands.take_chars_lineAt, stands.ofLocation_eq short⟩

/-- A command behind a character of two 16-bit units, on a line behind a carriage return. -/
def score : Text := "'é'\r\n'𝄞'; Say\r\n"

theorem score_places_agree :
    score.dropMark = score ∧ score.ReturnsEndLines ∧ ⟨14, 2, 6⟩ ∈ places (read score) ∧
    (∀ line ∈ score.splitOn lineFeed, line.length < Snippet.lineLimit) ∧
    Snippet.sourceLine score 2 = lineAt score 14 ∧
    (lineAt score 14).chars.take 5 = ("'𝄞'; " : Text).chars ∧
    Position.ofLocation score ⟨14, 2, 6⟩ = ⟨1, 6⟩ := by
  have unmarked : score.dropMark = score := by decide +kernel
  have returns : score.ReturnsEndLines := by decide +kernel
  have given : ⟨14, 2, 6⟩ ∈ places (read score) := by decide +kernel
  have short : ∀ line ∈ score.splitOn lineFeed, line.length < Snippet.lineLimit := by decide +kernel
  obtain ⟨-, -, -, -, agree⟩ := places_agree unmarked returns _ given
  obtain ⟨shown, cut, told⟩ := agree short
  exact ⟨unmarked, returns, given, short, shown, cut, told⟩

end Script

end ScopeLint
