import ScopeLint.Proofs.Editor.Positions
import ScopeLint.Proofs.Script.Places
import ScopeLint.Proofs.Token.Parting

/-!
The usages of a script keep apart. At least one byte lies between any two of them, so that an editor
never sees two usages at one position, although a position at the end of a usage counts as part of it.
-/

namespace ScopeLint

open Text

structure Spread (start stop : Int) (spans : List Span) : Prop where
  bounds : ∀ span ∈ spans, start ≤ span.start.byte ∧ span.start.byte ≤ span.stop.byte ∧
    span.stop.byte ≤ stop
  apart : spans.Pairwise fun left right => left.stop.byte < right.start.byte

namespace Spread

variable {start stop middle next : Int} {spans others : List Span}

theorem nil (start stop : Int) : Spread start stop [] := ⟨by simp, .nil⟩

theorem widen (spread : Spread start stop spans) {low high : Int} (before : low ≤ start)
    (behind : stop ≤ high) : Spread low high spans := by
  refine ⟨?_, spread.apart⟩
  intro span member
  obtain ⟨first, width, last⟩ := spread.bounds span member
  exact ⟨Int.le_trans before first, width, Int.le_trans last behind⟩

theorem append (spread : Spread start middle spans) (later : Spread next stop others)
    (gap : middle < next) (low : start ≤ next) (high : middle ≤ stop) :
    Spread start stop (spans ++ others) := by
  refine ⟨?_, List.pairwise_append.mpr ⟨spread.apart, later.apart, ?_⟩⟩
  · exact List.forall_mem_append.mpr
      ⟨(spread.widen (Int.le_refl _) high).bounds, (later.widen low (Int.le_refl _)).bounds⟩
  · intro left leftMember right rightMember
    obtain ⟨-, -, last⟩ := spread.bounds left leftMember
    obtain ⟨first, -, -⟩ := later.bounds right rightMember
    omega

end Spread

namespace Script

open Token

variable {source : Text}

def usageSpan? (source : Text) (occurrence : Occurrence) : Option Span :=
  ((report? source occurrence).bind Finding.usage?).map Usage.span

def usageSpans (source : Text) (found : List Occurrence) : List Span :=
  found.filterMap (usageSpan? source)

theorem span_of_usageSpan {occurrence : Occurrence} {span : Span}
    (used : usageSpan? source occurrence = some span) : span = occurrence.token.span := by
  obtain ⟨usage, given, rfl⟩ := Option.map_eq_some_iff.mp used
  obtain ⟨found, reported, same⟩ := Option.bind_eq_some_iff.mp given
  cases found with
  | definition => cases same
  | usage found =>
      obtain rfl := Option.some.inj same
      exact (leaf_of_report reported).2

/-- Outside of brackets around a type only commands are usages. -/
theorem usageSpan_eq_none {token : Token} {holder : Option Token} (outside : ¬ HoldsType holder)
    (other : token.kind ≠ .cmdlet) (previous : Option Token) :
    usageSpan? source ⟨token, previous, holder⟩ = none := by
  cases token with
  | cmdlet span => exact absurd rfl other
  | field span =>
      rw [usageSpan?, report_field outside, finding?]
      split <;> rfl
  | _ => rfl

/-- Where usages may begin: behind a command only after a byte. -/
def openFrom (previous : Option Token) (start : Int) : Int :=
  if FollowsCommand previous then start + 1 else start

theorem openFrom_le (previous : Option Token) (start : Int) : openFrom previous start ≤ start + 1 := by
  unfold openFrom
  split <;> omega

theorem usageSpans_cons (first : Occurrence) (others : List Occurrence) :
    usageSpans source (first :: others) =
      (usageSpan? source first).toList ++ usageSpans source others := by
  cases used : usageSpan? source first <;> simp [usageSpans, used]

theorem usageSpans_append (front behind : List Occurrence) :
    usageSpans source (front ++ behind) = usageSpans source front ++ usageSpans source behind :=
  List.filterMap_append

theorem usageSpans_of_command {token : Token} (command : token.kind = .cmdlet) :
    usageSpans source (occurrencesIn token) = [] := by
  cases token <;> first | rfl | cases command

theorem spread_own (token : Token) {previous holder : Option Token} {start : Int}
    (low : start ≤ token.span.start.byte) (width : token.span.start.byte < token.span.stop.byte) :
    Spread start token.span.stop.byte (usageSpan? source ⟨token, previous, holder⟩).toList := by
  cases used : usageSpan? source ⟨token, previous, holder⟩ with
  | none => exact .nil _ _
  | some span =>
      obtain rfl := span_of_usageSpan used
      refine ⟨?_, List.pairwise_singleton _ _⟩
      rintro other member
      obtain rfl := List.mem_singleton.mp member
      exact ⟨low, Int.le_of_lt width, Int.le_refl _⟩

/-- Tokens that part commands and keep what they hold from their ends. -/
def Sound (found : List Occurrence) : Prop :=
  ∀ occurrence ∈ found, occurrence.token.Inset ∧ occurrence.Parted

mutual

theorem spread_stream (tokens : List Token) (holder previous : Option Token)
    (outside : ¬ HoldsType holder) {start stop : Int} (nested : Nested start stop tokens)
    (sound : Sound (occurrencesOf holder previous tokens)) :
    Spread (openFrom previous start) stop (usageSpans source (occurrencesOf holder previous tokens)) := by
  cases tokens with
  | nil => exact .nil _ _
  | cons token rest =>
      rw [Nested] at nested
      obtain ⟨low, width, -, later⟩ := nested
      rw [occurrencesOf] at sound ⊢
      obtain ⟨⟨inset, parted⟩, others⟩ := List.forall_mem_cons.mp sound
      obtain ⟨within, further⟩ := List.forall_mem_append.mp others
      have inside := spread_token token inset within
      have behind := spread_stream rest holder (some token) outside later further
      have bound := later.le
      rw [usageSpans_cons, usageSpans_append]
      by_cases command : token.kind = .cmdlet
      · -- The command itself may be a usage, and what follows keeps a byte away from it.
        have follows : FollowsCommand (some token) := congrArg some command
        rw [openFrom, if_pos follows] at behind
        rw [openFrom, if_neg (parted command), usageSpans_of_command command, List.nil_append]
        exact (spread_own token low width).append behind (by omega) (by omega) bound
      · -- What a token holds keeps a byte away from its ends.
        have clear : ¬ FollowsCommand (some token) := fun follows => command (Option.some.inj follows)
        have opens := openFrom_le previous start
        rw [openFrom, if_neg clear] at behind
        rw [usageSpan_eq_none outside command, Option.toList_none, List.nil_append]
        exact (inside.widen (by omega) (Int.le_refl _)).append behind (by omega) (by omega) (by omega)

theorem spread_token (token : Token) (inset : token.Inset) (sound : Sound (occurrencesIn token)) :
    Spread (token.span.start.byte + 1) (token.span.stop.byte - 1)
      (usageSpans source (occurrencesIn token)) := by
  cases token with
  | string span parts => exact spread_stream parts (some (.string span parts)) none nofun inset sound
  | group delimiter sign span body =>
      by_cases type : HoldsType (some (.group delimiter sign span body))
      · unfold HoldsType at type
        split at type
        next same =>
          cases same
          obtain ⟨low, width, high⟩ := Nested.bounds inset _ List.mem_cons_self
          rw [occurrencesIn, occurrencesOf, usageSpans_cons]
          exact (List.append_nil _).symm ▸ (spread_own _ low width).widen (Int.le_refl _) high
        next => exact type.elim
      · exact spread_stream body (some (.group delimiter sign span body)) none type inset sound
  | _ => exact .nil _ _

end

theorem usageSpans_reports (tokens : List Token) :
    ((reports source tokens).filterMap Finding.usage?).map Usage.span =
      usageSpans source (occurrences tokens) := by
  rw [reports, List.filterMap_filterMap, List.map_filterMap]
  rfl

variable {text : Text} {script : Script}

/-- At least one byte lies between any two usages of a script. -/
theorem usages_parted (accepted : read text = .ok script) :
    script.usages.Pairwise fun left right =>
      left.span.stop.byte < right.span.start.byte ∨ right.span.stop.byte < left.span.start.byte := by
  obtain ⟨tokens, tokenized, same⟩ := Except.exists_of_bind accepted
  obtain rfl := Except.ok.inj same
  have insets := formed_of_read inset_formed tokenized
  have spread : Spread 0 text.dropMark.length (usageSpans text.dropMark (occurrences tokens)) :=
    spread_stream tokens none none nofun (nested_of_read tokenized) fun occurrence member =>
      ⟨insets occurrence member, allParted_of_read tokenized occurrence member⟩
  have reported := ((found_perm_reports text.dropMark tokens).filterMap Finding.usage?).map Usage.span
  rw [usageSpans_reports] at reported
  exact List.pairwise_map.mp (reported.symm.pairwise (spread.apart.imp .inl) Or.symm)

/-- What is found begins and ends in front of characters of the text, or at its end. -/
theorem findings_met (accepted : read text = .ok script) :
    ∀ span ∈ script.definitions.map Definition.span ++ script.usages.map Usage.span,
      span.start.Met text.dropMark ∧ span.stop.Met text.dropMark := by
  obtain ⟨tokens, tokenized, same⟩ := Except.exists_of_bind accepted
  obtain rfl := Except.ok.inj same
  let itself : Respacing := .itself text.dropMark (Location.Met text.dropMark) fun _ => met_placeOf
  have respaced : Tree.Respaced itself [] text.dropMark.glyphs text.dropMark.glyphs :=
    Tree.Respaced.of_itself []
  obtain ⟨error, other, refused, -⟩ | ⟨value, twins, read, -, alike⟩ :=
    (Token.read_agree respaced).outcomes
  · cases refused.symm.trans tokenized
  · obtain rfl := Except.ok.inj (read.symm.trans tokenized)
    intro span member
    obtain ⟨found, listed, rfl⟩ := List.mem_map.mp ((spans_perm _).mem_iff.mp member)
    obtain ⟨twin, reads⟩ := reads_found alike.streams found listed
    exact ⟨reads.start, reads.stop⟩

theorem usages_met (accepted : read text = .ok script) :
    ∀ usage ∈ script.usages,
      usage.span.start.Met text.dropMark ∧ usage.span.stop.Met text.dropMark :=
  fun _ member => findings_met accepted _ (List.mem_append_right _ (List.mem_map_of_mem member))

end Script

def Usage.isUnder (source : Text) (position : Position) (usage : Usage) : Bool :=
  (Range.ofSpan source usage.span).contains position

/-- A usage that ends in front of another one is not seen where the other one is. -/
theorem Usage.not_both_under {source : Text} {position : Position} {left right : Usage}
    (countable : source.Countable) (stop : left.span.stop.Met source)
    (start : right.span.start.Met source) (parted : left.span.stop.byte < right.span.start.byte)
    (under : left.isUnder source position = true) : right.isUnder source position = false := by
  obtain ⟨-, last⟩ := (Position.contains_iff _ _).mp under
  apply Bool.eq_false_iff.mpr
  intro also
  obtain ⟨first, -⟩ := (Position.contains_iff _ _).mp also
  exact ((before_of_byte_lt countable stop start parted).split position).elim last first

/-- At most one usage of a script is seen at a position. -/
theorem Script.usages_under {text : Text} {script : Script} (accepted : read text = .ok script)
    (countable : text.dropMark.Countable) (position : Position) :
    (script.usages.filter (Usage.isUnder text.dropMark position)).length ≤ 1 := by
  have met := usages_met accepted
  have alone : (script.usages.filter (Usage.isUnder text.dropMark position)).Pairwise
      fun _ _ => False := by
    rw [List.pairwise_filter]
    refine (usages_parted accepted).imp_of_mem ?_
    intro left right leftMember rightMember parted leftUnder rightUnder
    rcases parted with before | behind
    · have other := Usage.not_both_under countable (met left leftMember).2 (met right rightMember).1
        before leftUnder
      rw [rightUnder] at other
      cases other
    · have other := Usage.not_both_under countable (met right rightMember).2 (met left leftMember).1
        behind rightUnder
      rw [leftUnder] at other
      cases other
  cases found : script.usages.filter (Usage.isUnder text.dropMark position) with
  | nil => exact Nat.zero_le _
  | cons first rest =>
      cases rest with
      | nil => exact Nat.le_refl _
      | cons second rest =>
          rw [found] at alone
          exact ((List.pairwise_cons.mp alone).1 second List.mem_cons_self).elim

end ScopeLint
