import ScopeLint.Proofs.Script.Findings
import ScopeLint.Proofs.Script.Items
import ScopeLint.Proofs.Token.Nesting

/-!
Each command and each class name of a script is reported once. What is reported is read stream by
stream, and a class name in brackets by the stream around the brackets; here it is set against a list
of all tokens at all depths, each with what stands around it, where a class name is reported in its own
place.
-/

namespace ScopeLint

def Span.Apart (left right : Span) : Prop :=
  left.stop.byte ≤ right.start.byte ∨ right.stop.byte ≤ left.start.byte

structure Span.In (source : Text) (span : Span) : Prop extends span.Within source.length where
  filled : span.start.byte < span.stop.byte

namespace Token

/-- A token where it stands, with the token directly before it in its stream and the string or group
that holds the stream, if there are any. -/
structure Occurrence where
  token : Token
  previous : Option Token
  holder : Option Token

mutual

def occurrencesOf (holder previous : Option Token) : List Token → List Occurrence
  | [] => []
  | token :: rest =>
      ⟨token, previous, holder⟩ :: (occurrencesIn token ++ occurrencesOf holder (some token) rest)

def occurrencesIn : Token → List Occurrence
  | string span parts => occurrencesOf (some (string span parts)) none parts
  | group delimiter sign span body => occurrencesOf (some (group delimiter sign span body)) none body
  | _ => []

end

def occurrences (tokens : List Token) : List Occurrence := occurrencesOf none none tokens

def isLeaf : Token → Bool
  | string .. | group .. => false
  | _ => true

def leaves (found : List Occurrence) : List Token := (found.map Occurrence.token).filter isLeaf

mutual

/-- The leaves of a stream follow one another, whatever they are nested in. -/
theorem nested_leaves (tokens : List Token) (holder previous : Option Token) {start stop : Int}
    (nested : Nested start stop tokens) :
    Nested start stop (leaves (occurrencesOf holder previous tokens)) := by
  cases tokens with
  | nil => exact nested
  | cons token rest =>
      rw [Nested] at nested
      obtain ⟨low, width, nests, later⟩ := nested
      -- Whatever a token holds lies within its span, in front of those behind it.
      have inside := (nested_leavesIn token width nests).widen low (Int.le_refl _)
      have behind := nested_leaves rest holder (some token) later
      have split : leaves (occurrencesOf holder previous (token :: rest)) =
          ([token].filter isLeaf ++ leaves (occurrencesIn token)) ++
            leaves (occurrencesOf holder (some token) rest) := by
        simp only [leaves, occurrencesOf, List.map_cons, List.map_append, ← List.filter_append,
          List.cons_append, List.nil_append]
      rw [split]
      exact inside.append behind

theorem nested_leavesIn (token : Token) (width : token.span.start.byte < token.span.stop.byte)
    (nests : token.Nests) :
    Nested token.span.start.byte token.span.stop.byte
      ([token].filter isLeaf ++ leaves (occurrencesIn token)) := by
  cases token with
  | string span parts =>
      rw [Nests] at nests
      exact nested_leaves parts _ none nests
  | group delimiter sign span body =>
      rw [Nests] at nests
      exact nested_leaves body _ none nests
  | _ => simpa [leaves, occurrencesIn, List.filter_cons, isLeaf, Nested] using ⟨width, nests⟩

end

section Formed

/-- A property of tokens that follows from the lexemes that they stand for. -/
structure Formed (source : Text) (holds : Token → Prop) : Prop where
  ofRun {run behind : List Tree} {token : Token} {start stop : Int} (forms : Forms source run token)
    (level : Tree.Level source start stop (run ++ behind)) : holds token
  ofName (span : Span) (filled : span.start.byte < span.stop.byte) : holds (.variable span span)
  ofPart (sign : Option GroupSign) (span : Span) (body : List Token)
    (filled : span.start.byte < span.stop.byte)
    (inset : Nested (span.start.byte + 1) (span.stop.byte - 1) body) :
    holds (.group .paren sign span body)

variable {source : Text} {holds : Token → Prop}

mutual

theorem formed_within (formed : Formed source holds) {run : List Tree} {token : Token}
    (forms : Forms source run token) (covers : ∀ tree ∈ run, tree.Covers source) :
    ∀ occurrence ∈ occurrencesIn token, holds occurrence.token := by
  match forms with
  | .string inside =>
      obtain ⟨first, last, -, -, parts⟩ := (covers _ List.mem_cons_self).parts
      exact formed_interpolates formed _ none inside parts
  | .group inside =>
      obtain ⟨first, last, -, -, level⟩ := (covers _ List.mem_cons_self).body
      exact formed_regroups formed _ none inside level
  | .marked _ inside =>
      obtain ⟨first, last, -, -, level⟩ := (covers _ (List.mem_cons_of_mem _ List.mem_cons_self)).body
      exact formed_regroups formed _ none inside level
  | .command _ _ =>
      unfold ofCommand
      dsimp only
      repeat' split
      all_goals simp [occurrencesIn]
  | .field | .membership | .argument _ _ | .dollar | .bare | .flag | .doubleColon | .symbol
  | .lineBreak | .number => simp [occurrencesIn]

theorem formed_regroups (formed : Formed source holds) {start stop : Int} {trees : List Tree}
    {tokens : List Token} (holder previous : Option Token) (groups : Regroups source trees tokens)
    (level : Tree.Level source start stop trees) :
    ∀ occurrence ∈ occurrencesOf holder previous tokens, holds occurrence.token := by
  match groups with
  | .nil => simp [occurrencesOf]
  | .cons forms more =>
      have inside := formed_within formed forms fun tree member =>
        (level.covers tree (List.mem_append_left _ member)).2.2.2
      have behind := (forms.spanned level).level
      rw [occurrencesOf, List.forall_mem_cons, List.forall_mem_append]
      exact ⟨formed.ofRun forms level, inside, formed_regroups formed holder _ more behind⟩
  | .operator _ more =>
      obtain ⟨-, -, -, -, behind⟩ := level.pair
      rw [occurrencesOf, List.forall_mem_cons, List.forall_mem_append]
      exact ⟨formed.ofRun .symbol level, by simp [occurrencesIn],
        formed_regroups formed holder _ more behind⟩
  | .continuation more =>
      obtain ⟨-, -, -, -, behind⟩ := level.pair
      exact formed_regroups formed holder previous more behind

theorem formed_interpolates (formed : Formed source holds) {start stop : Int} {parts : List Tree}
    {pieces : List Token} (holder previous : Option Token) (groups : Interpolates source parts pieces)
    (level : Tree.Parts source start stop parts) :
    ∀ occurrence ∈ occurrencesOf holder previous pieces, holds occurrence.token := by
  match groups with
  | .nil => simp [occurrencesOf]
  | .variable more =>
      rw [Tree.Parts] at level
      obtain ⟨-, filled, -, behind⟩ := level
      rw [occurrencesOf, List.forall_mem_cons, List.forall_mem_append]
      exact ⟨formed.ofName _ filled, by simp [occurrencesIn],
        formed_interpolates formed holder _ more behind⟩
  | .block inside more | .expression inside more =>
      rw [Tree.Parts] at level
      obtain ⟨-, filled, covers, behind⟩ := level
      obtain ⟨first, last, low, high, body⟩ := covers.body
      have inset := (nested_of_regroups inside body).widen (Int.add_one_le_of_lt low)
        (Int.le_sub_one_of_lt high)
      rw [occurrencesOf, List.forall_mem_cons, List.forall_mem_append]
      exact ⟨formed.ofPart _ _ _ filled inset, formed_regroups formed _ none inside body,
        formed_interpolates formed holder _ more behind⟩

end

/-- A property that follows from lexemes holds of all tokens of a text, at all depths. -/
theorem formed_of_read (formed : Formed source holds) {tokens : List Token}
    (accepted : read source = .ok tokens) :
    ∀ occurrence ∈ occurrences tokens, holds occurrence.token := by
  obtain ⟨trees, lexed, made⟩ := Except.exists_of_bind accepted
  exact formed_regroups formed none none (regroups_of_stream made)
    ((Tree.laid_of_read lexed).level (List.suffix_refl _))

end Formed

end Token

namespace Script

open Token

/-- What is reported of a token: a command behind the keyword for functions defines a function and any
other command uses one, unless it is a word of the language or a program; a name behind the keyword for
classes defines a class, and one that stands alone between square brackets uses one. -/
def report? (source : Text) : Occurrence → Option Finding
  | ⟨.cmdlet span, some (.keyword .function _), _⟩ =>
      some (.definition ⟨⟨span.slice source, .function⟩, span⟩)
  | ⟨.cmdlet span, _, _⟩ =>
      if isKeyword (span.slice source) || isProgram (span.slice source) then none
      else some (.usage ⟨⟨span.slice source, .function⟩, span⟩)
  | ⟨.field span, some (.keyword .classWord _), _⟩ =>
      some (.definition ⟨⟨span.slice source, .classType⟩, span⟩)
  | ⟨.field span, _, some (.group .bracket _ _ [.field _])⟩ =>
      some (.usage ⟨⟨span.slice source, .classType⟩, span⟩)
  | _ => none

def reports (source : Text) (tokens : List Token) : List Finding :=
  (occurrences tokens).filterMap (report? source)

variable {source : Text} {found : Finding}

/-- Commands are reported as functions and fields as classes, by the text of their spans. -/
theorem report_cases {occurrence : Occurrence} (reported : report? source occurrence = some found) :
    (occurrence.token = .cmdlet found.span ∧ found.item = ⟨found.span.slice source, .function⟩) ∨
      (occurrence.token = .field found.span ∧ found.item = ⟨found.span.slice source, .classType⟩) := by
  unfold report? at reported
  split at reported
  next =>
    obtain rfl := Option.some.inj reported
    exact .inl ⟨rfl, rfl⟩
  next =>
    split at reported
    next => cases reported
    next =>
      obtain rfl := Option.some.inj reported
      exact .inl ⟨rfl, rfl⟩
  next =>
    obtain rfl := Option.some.inj reported
    exact .inr ⟨rfl, rfl⟩
  next =>
    obtain rfl := Option.some.inj reported
    exact .inr ⟨rfl, rfl⟩
  next => cases reported

theorem leaf_of_report {occurrence : Occurrence} (reported : report? source occurrence = some found) :
    occurrence.token.isLeaf = true ∧ found.span = occurrence.token.span := by
  obtain ⟨token, -⟩ | ⟨token, -⟩ := report_cases reported
  all_goals
    rw [token]
    exact ⟨rfl, rfl⟩

theorem name_of_report {occurrence : Occurrence} (reported : report? source occurrence = some found) :
    found.item.name = found.span.slice source := by
  obtain ⟨-, item⟩ | ⟨-, item⟩ := report_cases reported
  all_goals rw [item]

/-- The reports on tokens that are nested have spans in the order of the text. -/
theorem reports_in_order {tokens : List Token} {start stop : Int} (nested : Nested start stop tokens) :
    (reports source tokens).Pairwise fun left right => left.span.stop.byte ≤ right.span.start.byte := by
  have ordered := (nested_leaves tokens none none nested).pairwise
  rw [leaves, List.pairwise_filter, List.pairwise_map] at ordered
  refine ordered.filterMap _ ?_
  intro left right apart first leftReport second rightReport
  obtain ⟨leftLeaf, leftSpan⟩ := leaf_of_report leftReport
  obtain ⟨rightLeaf, rightSpan⟩ := leaf_of_report rightReport
  rw [leftSpan, rightSpan]
  exact apart leftLeaf rightLeaf

theorem report_bounds {tokens : List Token} (nested : Nested 0 source.length tokens) :
    ∀ found ∈ reports source tokens,
      found.span.In source ∧ found.item.name = found.span.slice source := by
  intro found member
  obtain ⟨occurrence, among, reported⟩ := List.mem_filterMap.mp member
  obtain ⟨leaf, same⟩ := leaf_of_report reported
  have held : occurrence.token ∈ leaves (occurrences tokens) :=
    List.mem_filter.mpr ⟨List.mem_map_of_mem among, leaf⟩
  obtain ⟨low, width, high⟩ := (nested_leaves tokens none none nested).bounds _ held
  rw [← same] at low width high
  exact ⟨⟨⟨low, Int.le_of_lt width, high⟩, width⟩, name_of_report reported⟩

section Correspondence

def foundWithin (source : Text) (inner : List (List Token)) : List Finding :=
  inner.flatMap (findings source .symbol)

/-- The kind that a stream is searched with behind a token, or at its front. -/
def kindBefore (previous : Option Token) : TokenKind := (previous.map Token.kind).getD .symbol

/-- Brackets whose only content is a name. It is reported there, and found by the stream around them. -/
def HoldsType : Option Token → Prop
  | some (.group .bracket _ _ [.field _]) => True
  | _ => False

theorem foundWithin_children (token : Token) :
    foundWithin source (innerStreams token) =
      findings source .symbol token.children ++ foundWithin source (innerStreamsOf token.children) := by
  cases token with
  | string span parts =>
      cases parts with
      | nil => rfl
      | cons => simp [foundWithin, innerStreams, children]
  | group delimiter sign span body =>
      cases body with
      | nil => rfl
      | cons => simp [foundWithin, innerStreams, children]
  | _ => simp [foundWithin, innerStreams, children, innerStreamsOf, findings]

theorem report_cmdlet (holder previous : Option Token) (span : Span) :
    report? source ⟨.cmdlet span, previous, holder⟩ =
      finding? source (kindBefore previous) (.cmdlet span) := by
  cases previous with
  | none => rfl
  | some before =>
      cases before with
      | keyword which => cases which <;> rfl
      | _ => rfl

theorem report_field {holder : Option Token} (outside : ¬ HoldsType holder) (previous : Option Token)
    (span : Span) :
    report? source ⟨.field span, previous, holder⟩ =
      finding? source (kindBefore previous) (.field span) := by
  unfold report?
  split
  next same => cases same
  next same => cases same
  next same =>
    cases same
    rfl
  next same =>
    cases same
    exact absurd trivial outside
  next undeclared _ =>
    simp only [finding?]
    split
    next declaring =>
      cases previous with
      | none => cases declaring
      | some before =>
          cases before with
          | keyword which place =>
              cases which with
              | classWord => exact (undeclared _ _ _ rfl).elim
              | _ => cases declaring
          | _ => cases declaring
    next => rfl

theorem perm_front {first inside others further all : List Finding}
    (front : (first ++ inside).Perm all) :
    (first ++ others ++ (inside ++ further)).Perm (all ++ (others ++ further)) := by
  calc
    (first ++ others ++ (inside ++ further)).Perm (first ++ inside ++ (others ++ further)) := by
      simpa only [List.append_assoc] using
        (List.perm_append_comm_assoc others inside further).append_left first
    _ |>.Perm (all ++ (others ++ further)) := front.append_right _

theorem filterMap_report (first : Occurrence) (others : List Occurrence) :
    (first :: others).filterMap (report? source) =
      (report? source first).toList ++ others.filterMap (report? source) := by
  cases reported : report? source first <;> simp [reported]

theorem finding_of_group {delimiter : Delimiter} {sign : Option GroupSign} {span : Span}
    {body : List Token} (other : ¬ HoldsType (some (.group delimiter sign span body)))
    (previous : TokenKind) : finding? source previous (.group delimiter sign span body) = none := by
  simp only [finding?, Option.map_eq_none_iff]
  unfold typeReference?
  split
  next same =>
    cases same
    exact absurd trivial other
  next => rfl

mutual

theorem found_stream (tokens : List Token) (holder previous : Option Token)
    (outside : ¬ HoldsType holder) :
    (findings source (kindBefore previous) tokens ++ foundWithin source (innerStreamsOf tokens)).Perm
      ((occurrencesOf holder previous tokens).filterMap (report? source)) := by
  cases tokens with
  | nil => rfl
  | cons token rest =>
      have here := found_token token holder previous outside
      have behind := found_stream rest holder (some token) outside
      rw [occurrencesOf, filterMap_report, List.filterMap_append, ← List.append_assoc, findings,
        innerStreamsOf, foundWithin, List.flatMap_append]
      exact (perm_front here).trans (behind.append_left _)

theorem found_token (token : Token) (holder previous : Option Token) (outside : ¬ HoldsType holder) :
    ((finding? source (kindBefore previous) token).toList ++
        foundWithin source (innerStreams token)).Perm
      ((report? source ⟨token, previous, holder⟩).toList ++
        (occurrencesIn token).filterMap (report? source)) := by
  rw [foundWithin_children]
  -- A type is found here, in front of the stream that holds its name; elsewhere both sides agree.
  cases token with
  | cmdlet span => rw [report_cmdlet]; rfl
  | field span => rw [report_field outside]; rfl
  | string span parts => exact found_stream parts (some (.string span parts)) none nofun
  | group delimiter sign span body =>
      by_cases type : HoldsType (some (.group delimiter sign span body))
      · unfold HoldsType at type
        split at type
        next same =>
          cases same
          rfl
        next => exact type.elim
      · rw [finding_of_group type]
        exact found_stream body (some (.group delimiter sign span body)) none type
  | _ => rfl

end

/-- The search finds what is reported of the tokens at all depths. -/
theorem found_perm_reports (source : Text) (tokens : List Token) :
    ((streams tokens).flatMap (findings source .symbol)).Perm (reports source tokens) := by
  rw [streams, List.flatMap_cons]
  exact found_stream tokens none none nofun

theorem spans_perm (found : List Finding) :
    ((found.filterMap Finding.definition?).map Definition.span ++
      (found.filterMap Finding.usage?).map Usage.span).Perm (found.map Finding.span) := by
  induction found with
  | nil => rfl
  | cons first others induction =>
      cases first with
      | definition => exact induction.cons _
      | usage => exact List.perm_middle.trans (induction.cons _)

end Correspondence

/-- A script defines and uses exactly what is reported of the tokens of its text, each token being
reported once. No two of the places share a byte, and each name is what the text has in its place. -/
theorem tokens_reported_once {text : Text} {script : Script} (accepted : read text = .ok script) :
    ∃ tokens, Token.read text.dropMark = .ok tokens ∧
      script.definitions.Perm ((reports text.dropMark tokens).filterMap Finding.definition?) ∧
      script.usages.Perm ((reports text.dropMark tokens).filterMap Finding.usage?) ∧
      (script.definitions.map Definition.span ++ script.usages.map Usage.span).Pairwise Span.Apart ∧
      (∀ definition ∈ script.definitions, definition.span.In text.dropMark ∧
        definition.item.name = definition.span.slice text.dropMark) ∧
      ∀ usage ∈ script.usages, usage.span.In text.dropMark ∧
        usage.item.name = usage.span.slice text.dropMark := by
  obtain ⟨tokens, tokenized, same⟩ := Except.exists_of_bind accepted
  obtain rfl := Except.ok.inj same
  have nested := nested_of_read tokenized
  have found := found_perm_reports text.dropMark tokens
  have placed := report_bounds nested
  refine ⟨tokens, tokenized, found.filterMap _, found.filterMap _, ?_, ?_, ?_⟩
  · have ordered : ((reports text.dropMark tokens).map Finding.span).Pairwise Span.Apart :=
      List.pairwise_map.mpr ((reports_in_order nested).imp .inl)
    exact ((spans_perm _).trans (found.map _)).symm.pairwise ordered Or.symm
  · intro definition member
    obtain ⟨finding, listed, same⟩ := List.mem_filterMap.mp member
    cases finding with
    | definition => exact Option.some.inj same ▸ placed _ (found.mem_iff.mp listed)
    | usage => cases same
  · intro usage member
    obtain ⟨finding, listed, same⟩ := List.mem_filterMap.mp member
    cases finding with
    | definition => cases same
    | usage => exact Option.some.inj same ▸ placed _ (found.mem_iff.mp listed)

/-- A class, a function, and uses of a class and of commands at three depths. -/
def declaring : Text := "class Bar \x7b\x7d\nfunction Foo \x7b [Bar]$x; Baz \"$(Qux)\" \x7d"

def declared : Script where
  imports := []
  definitions :=
    [⟨⟨"Bar", .classType⟩, ⟨⟨6, 1, 7⟩, ⟨9, 1, 10⟩⟩⟩,
      ⟨⟨"Foo", .function⟩, ⟨⟨22, 2, 10⟩, ⟨25, 2, 13⟩⟩⟩]
  usages :=
    [⟨⟨"Bar", .classType⟩, ⟨⟨29, 2, 17⟩, ⟨32, 2, 20⟩⟩⟩,
      ⟨⟨"Baz", .function⟩, ⟨⟨37, 2, 25⟩, ⟨40, 2, 28⟩⟩⟩,
      ⟨⟨"Qux", .function⟩, ⟨⟨44, 2, 32⟩, ⟨47, 2, 35⟩⟩⟩]
  testcases := []

theorem declaring_reported_once :
    read declaring = .ok declared ∧
      ∃ tokens, Token.read declaring.dropMark = .ok tokens ∧
        declared.definitions.Perm ((reports declaring.dropMark tokens).filterMap Finding.definition?) ∧
        declared.usages.Perm ((reports declaring.dropMark tokens).filterMap Finding.usage?) ∧
        (declared.definitions.map Definition.span ++ declared.usages.map Usage.span).Pairwise
          Span.Apart := by
  have accepted : read declaring = .ok declared := by decide +kernel
  obtain ⟨tokens, tokenized, definitions, usages, apart, -, -⟩ := tokens_reported_once accepted
  exact ⟨accepted, tokens, tokenized, definitions, usages, apart⟩

end Script

end ScopeLint
