import ScopeLint.Proofs.Script.Findings
import ScopeLint.Proofs.Script.Lines
import ScopeLint.Proofs.Source.LineEndings

/-!
Line endings do not matter. A script whose lines end in a carriage return and a line feed is read as
the script with line feeds only: tokens are alike as lexemes and glyphs are, and the lines are the
same texts further on.
-/

namespace ScopeLint

def Definition.withReturns (source : Text) (definition : Definition) : Definition :=
  { definition with span := definition.span.withReturns source }

def Usage.withReturns (source : Text) (usage : Usage) : Usage :=
  { usage with span := usage.span.withReturns source }

def Testcase.withReturns (source : Text) (testcase : Testcase) : Testcase :=
  { testcase with span := testcase.span.withReturns source }

def Import.withReturns (source : Text) (stated : Import) : Import :=
  { stated with span := stated.span.withReturns source }

/-- The contents of a script with every place moved as in the text with carriage returns. -/
def Script.withReturns (source : Text) (script : Script) : Script where
  imports := script.imports.map (Import.withReturns source)
  definitions := script.definitions.map (Definition.withReturns source)
  usages := script.usages.map (Usage.withReturns source)
  testcases := script.testcases.map (Testcase.withReturns source)

def SyntaxError.withReturns (source : Text) (error : SyntaxError) : SyntaxError :=
  { error with place := error.place.withReturns source }

namespace Line

open Text

variable {source front behind : Text} {line : Line}

def withReturns (line : Line) : Line := { line with offset := line.offset + (line.number - 1) }

/-- Lines that end in a carriage return, but for the last one, which does not end. -/
def endLines : List Text → List Text
  | [] => []
  | [last] => [last]
  | line :: next :: rest => (line ++ [carriageReturn]) :: endLines (next :: rest)

theorem splitOn_withReturns (text : Text) :
    Text.splitOn lineFeed text.withReturns = endLines (Text.splitOn lineFeed text) := by
  induction text with
  | nil => rfl
  | cons byte rest induction =>
      obtain ⟨first, others, lines, front⟩ := exists_splitOn lineFeed rest
      rw [← List.singleton_append, withReturns_append, List.singleton_append]
      by_cases feed : byte = lineFeed
      · rw [feed, splitOn_mark, lines, endLines, ← lines, ← induction]
        simp [Text.withReturns, Text.splitOn, carriageReturn, lineFeed]
      · obtain ⟨firstTwin, othersTwin, linesTwin, frontTwin⟩ := exists_splitOn lineFeed (Text.withReturns rest)
        rw [withReturns_of_line (by simpa using Ne.symm feed), List.singleton_append,
          frontTwin byte feed, front byte feed]
        rw [lines, linesTwin] at induction
        cases others with
        | nil =>
            obtain ⟨rfl, rfl⟩ := List.cons.inj induction
            rfl
        | cons next others =>
            obtain ⟨rfl, rfl⟩ := List.cons.inj induction
            rfl

theorem numbered_endLines {texts : List Text} (plain : ∀ text ∈ texts, carriageReturn ∉ text)
    (before offset : Nat) :
    numbered (before + 1) (offset + before) (endLines texts) =
      (numbered (before + 1) offset texts).map withReturns := by
  induction texts generalizing before offset with
  | nil => rfl
  | cons text rest induction =>
      have own := plain text List.mem_cons_self
      cases rest with
      | nil => simp [endLines, numbered, withReturns]
      | cons next rest =>
          have later := induction (fun text inner => plain text (List.mem_cons_of_mem _ inner))
            (before + 1) (offset + text.length + 1)
          have start : offset + before + (text ++ [carriageReturn]).length + 1 =
              offset + text.length + 1 + (before + 1) := by
            simp only [List.length_append, List.length_singleton]
            omega
          rw [endLines, numbered, numbered, List.map_cons, start, later, dropEnding_return,
            dropEnding_plain own]
          rfl

variable (plain : carriageReturn ∉ source)

include plain

theorem plain_splitOn : ∀ text ∈ Text.splitOn lineFeed source, carriageReturn ∉ text :=
  fun text member inside => plain (mem_of_splitOn lineFeed source text member _ inside).1

theorem ofSource_withReturns : ofSource source.withReturns = (ofSource source).map withReturns := by
  rw [ofSource, splitOn_withReturns]
  exact numbered_endLines (plain_splitOn plain) 0 0

omit plain

theorem locate_withReturns (stands : line.Stands source front behind) {pieces : List Piece}
    (within : pieces <+: line.text.pieces) :
    line.withReturns.locate pieces = (line.locate pieces).withReturns source := by
  obtain ⟨more, same⟩ := within
  have inner : line.text = ofPieces pieces ++ ofPieces more := (pieces_cut same.symm).1
  have inside : lineFeed ∉ ofPieces pieces := by
    intro member
    apply stands.inLine
    rw [inner]
    exact List.mem_append_left _ member
  have cut : source = (front ++ ofPieces pieces) ++ (ofPieces more ++ behind) := by
    rw [stands.split, inner]
    simp
  have byte : (line.locate pieces).byte = (front ++ ofPieces pieces).length := by
    rw [locate, stands.offset, List.length_append]
    rfl
  have moved := byte_withReturns cut byte
  rw [withReturns_append, withReturns_of_line inside, List.length_append, length_withReturns] at moved
  rw [Location.withReturns, Location.mk.injEq]
  refine ⟨?_, rfl, rfl⟩
  change _ = ((line.locate pieces).withReturns source).byte
  rw [moved, locate, withReturns, stands.offset, stands.number]
  push_cast
  omega

theorem span_withReturns (stands : line.Stands source front behind) :
    line.withReturns.span = line.span.withReturns source := by
  rw [span, span, Span.withReturns]
  exact congrArg₂ Span.mk (locate_withReturns stands (List.takeWhile_prefix _))
    (locate_withReturns stands (List.take_prefix _ _))

theorem import_withReturns (stands : line.Stands source front behind) :
    line.withReturns.import? = line.import?.map (Import.withReturns source) := by
  rw [import?, import?, Option.map_map, span_withReturns stands]
  rfl

theorem testcase_withReturns (stands : line.Stands source front behind) :
    line.withReturns.testcase? = line.testcase?.map (Testcase.withReturns source) := by
  rw [testcase?, testcase?, Option.map_map, span_withReturns stands]
  rfl

end Line

namespace Script

open Text

def Finding.withReturns (source : Text) : Finding → Finding
  | definition found => .definition (found.withReturns source)
  | usage found => .usage (found.withReturns source)

theorem Finding.definition_withReturns (source : Text) (found : Finding) :
    (found.withReturns source).definition? =
      found.definition?.map (Definition.withReturns source) := by
  cases found <;> rfl

theorem Finding.usage_withReturns (source : Text) (found : Finding) :
    (found.withReturns source).usage? = found.usage?.map (Usage.withReturns source) := by
  cases found <;> rfl

variable {source : Text} {plain : carriageReturn ∉ source}

theorem spans_withReturns {span twin : Span} (spans : (source.respelling plain).Spans span twin) :
    twin = span.withReturns source :=
  congrArg₂ Span.mk spans.start spans.stop

theorem slice_withReturns {span : Span}
    (text : (source.respelling plain).SameText span (span.withReturns source)) :
    (span.withReturns source).slice source.withReturns = span.slice source :=
  text.slice_eq

theorem typeReference_withReturns {token twin : Token}
    (alike : Token.Alike (source.respelling plain) token twin) :
    typeReference? twin = (typeReference? token).map (Span.withReturns source) ∧
      ∀ span ∈ typeReference? token, (source.respelling plain).SameText span (span.withReturns source) := by
  cases alike with
  | @group delimiter sign span twin body others spans inside =>
      cases inside with
      | nil => cases delimiter <;> exact ⟨rfl, by simp [typeReference?]⟩
      | cons alike more =>
          cases delimiter with
          | bracket =>
              cases more with
              | nil =>
                  cases alike with
                  | field reads =>
                      obtain rfl := spans_withReturns reads.toSpans
                      exact ⟨rfl, fun named same => Option.some.inj same ▸ reads.text⟩
                  | _ => exact ⟨rfl, by simp [typeReference?]⟩
              | cons next more => exact ⟨by simp [typeReference?], by simp [typeReference?]⟩
          | _ => exact ⟨rfl, by simp [typeReference?]⟩
  | _ => exact ⟨rfl, by simp [typeReference?]⟩

theorem finding_withReturns {token twin : Token} (previous : TokenKind)
    (alike : Token.Alike (source.respelling plain) token twin) :
    finding? source.withReturns previous twin =
      (finding? source previous token).map (Finding.withReturns source) := by
  have reference := typeReference_withReturns alike
  cases alike with
  | @cmdlet span twin reads =>
      obtain rfl := spans_withReturns reads.toSpans
      simp only [finding?, slice_withReturns reads.text]
      split
      next => rfl
      next => split <;> rfl
  | @field span twin reads =>
      obtain rfl := spans_withReturns reads.toSpans
      simp only [finding?, slice_withReturns reads.text]
      split <;> rfl
  | group spans inside =>
      obtain ⟨same, texts⟩ := reference
      simp only [finding?, same]
      cases named : typeReference? _ with
      | none => rfl
      | some span =>
          simp only [Option.map_some, slice_withReturns (texts span named)]
          rfl
  | _ => rfl

theorem findings_withReturns {tokens twins : List Token} (previous : TokenKind)
    (alike : Token.AllAlike (source.respelling plain) tokens twins) :
    findings source.withReturns previous twins =
      (findings source previous tokens).map (Finding.withReturns source) := by
  induction tokens generalizing previous twins with
  | nil =>
      cases alike
      rfl
  | cons token rest induction =>
      cases alike with
      | @cons _ twin _ others alike more =>
          rw [findings, findings, alike.kind_eq, finding_withReturns previous alike,
            induction token.kind more, List.map_append]
          cases finding? source previous token <;> rfl

theorem found_withReturns {streams twins : List (List Token)}
    (alike : List.Forall₂ (Token.AllAlike (source.respelling plain)) streams twins) :
    twins.flatMap (findings source.withReturns .symbol) =
      (streams.flatMap (findings source .symbol)).map (Finding.withReturns source) := by
  induction alike with
  | nil => rfl
  | cons first more induction =>
      rw [List.flatMap_cons, List.flatMap_cons, findings_withReturns .symbol first, induction,
        List.map_append]

theorem ofTokens_withReturns {tokens twins : List Token}
    (alike : Token.AllAlike (source.respelling plain) tokens twins) :
    ofTokens source.withReturns twins = (ofTokens source tokens).withReturns source := by
  have imports := List.filterMap_map_of_comm fun line member =>
    have ⟨_, _, stands⟩ := Line.exists_stands source line member
    Line.import_withReturns stands
  have testcases := List.filterMap_map_of_comm fun line member =>
    have ⟨_, _, stands⟩ := Line.exists_stands source line member
    Line.testcase_withReturns stands
  rw [ofTokens, found_withReturns alike.streams, Line.ofSource_withReturns plain, imports,
    testcases, List.filterMap_map_of_comm fun found _ => found.definition_withReturns source,
    List.filterMap_map_of_comm fun found _ => found.usage_withReturns source]
  rfl

theorem spelled_usages {tokens twins : List Token}
    (alike : Token.AllAlike (source.respelling plain) tokens twins) :
    ∀ usage ∈ (ofTokens source tokens).usages, ∃ text, usage.span.Spells source text := by
  intro usage member
  obtain ⟨found, listed, same⟩ := List.mem_filterMap.mp member
  cases found with
  | definition => cases same
  | usage found =>
      obtain rfl := Option.some.inj same
      obtain ⟨other, reads⟩ := reads_found alike.streams _ listed
      exact reads.text.imp fun text => And.left

/-- Line endings do not matter: a script without carriage returns and the same script with one in
front of every line feed have the same contents, or the same fault, at the same lines and columns,
only further on by the line feeds in front; and whatever is used stands on the same line. -/
theorem read_withReturns {text : Text} (plain : carriageReturn ∉ text) :
    (read text.withReturns = match read text with
      | .ok script => .ok (script.withReturns text.dropMark)
      | .error error => .error (error.withReturns text.dropMark)) ∧
    ∀ script, read text = .ok script → ∀ usage ∈ script.usages,
      lineAt text.withReturns.dropMark (usage.withReturns text.dropMark).span.start.byte =
        lineAt text.dropMark usage.span.start.byte := by
  have plainRest : carriageReturn ∉ text.dropMark :=
    fun member => plain ((dropMark_suffix text).subset member)
  have agree := Token.read_agree (respaced_withReturns plainRest)
  rw [read_eq, read_eq, dropMark_withReturns]
  obtain ⟨error, twin, here, there, fault, place⟩ | ⟨tokens, twins, here, there, alike⟩ :=
    agree.outcomes
  · rw [show Token.read text.dropMark = _ from here,
      show Token.read text.dropMark.withReturns = _ from there]
    refine ⟨congrArg Except.error (congrArg₂ SyntaxError.mk fault place), ?_⟩
    intro script accepted
    cases accepted
  · rw [show Token.read text.dropMark = _ from here,
      show Token.read text.dropMark.withReturns = _ from there]
    refine ⟨congrArg Except.ok (ofTokens_withReturns alike), ?_⟩
    intro script accepted usage member
    obtain rfl := Except.ok.inj accepted
    obtain ⟨name, front, behind, split, start, -⟩ := spelled_usages alike usage member
    change lineAt _ (usage.span.start.withReturns text.dropMark).byte = _
    rw [byte_withReturns split start, start]
    exact lineAt_withReturns plainRest split

def memo : Text := ". lib\nSay\n"

theorem memo_read_withReturns :
    carriageReturn ∉ memo ∧
    read memo.withReturns = .ok
      { imports := [⟨.unrecognized "lib", ⟨0, 1, 1⟩, ⟨5, 1, 6⟩⟩]
        definitions := []
        usages := [⟨⟨"Say", .function⟩, ⟨7, 2, 1⟩, ⟨10, 2, 4⟩⟩]
        testcases := [] } ∧
    lineAt memo.withReturns.dropMark 7 = lineAt memo.dropMark 6 := by
  have plain : carriageReturn ∉ memo := by decide +kernel
  obtain ⟨moved, lines⟩ := read_withReturns plain
  exact ⟨plain, moved, lines _ rfl ⟨⟨"Say", .function⟩, ⟨6, 2, 1⟩, ⟨9, 2, 4⟩⟩ (List.mem_singleton_self _)⟩

end Script

end ScopeLint
