import ScopeLint.Proofs.Source.Glyphs
import ScopeLint.Source.Fault

/-!
Two texts that differ only in what leaves no trace in the lexemes, such as the bytes of a line break
or the contents of a comment. Places of the one stand for places of the other, and what is read from
the two texts is compared up to that.
-/

namespace ScopeLint

def Span.Spells (source : Text) (span : Span) (text : Text) : Prop :=
  ∃ front behind, source = front ++ (text ++ behind) ∧ span.start.byte = front.length ∧
    span.stop.byte = front.length + text.length

namespace Span.Spells

variable {source text more : Text} {span next : Span}

theorem slice_eq (spells : span.Spells source text) : span.slice source = text := by
  obtain ⟨front, behind, rfl, start, stop⟩ := spells
  have inside : ¬ (span.start.byte < 0 || span.stop.byte > (front ++ (text ++ behind)).length ||
      span.start.byte > span.stop.byte) = true := by
    simp only [List.length_append, Bool.or_eq_true, decide_eq_true_eq]
    omega
  rw [slice, if_neg inside, start, stop, ← Int.natCast_add, Int.toNat_natCast, Int.toNat_natCast]
  simp [Text.slice]

theorem through (first : span.Spells source text) (second : next.Spells source more)
    (touches : span.stop = next.start) : (span.through next).Spells source (text ++ more) := by
  obtain ⟨front, behind, split, start, stop⟩ := first
  obtain ⟨before, rest, splitNext, startNext, stopNext⟩ := second
  rw [touches, startNext] at stop
  have whole : front ++ (text ++ behind) = before ++ (more ++ rest) := split.symm.trans splitNext
  have same : before = front ++ text := by
    have taken := congrArg (List.take before.length) whole
    rw [List.take_left, ← List.append_assoc, List.take_left' (by simp; omega)] at taken
    exact taken.symm
  refine ⟨front, rest, ?_, start, ?_⟩
  · rw [splitNext, same]
    simp
  · change next.stop.byte = _
    rw [stopNext, same]
    simp only [List.length_append]
    omega

end Span.Spells

/-- A text, another one, and which places of the other stand for which of the first. -/
structure Respacing where
  source : Text
  other : Text
  place : Location → Location → Prop
  stops : place source.stop other.stop

namespace Respacing

variable (pair : Respacing)

structure Spans (span twin : Span) : Prop where
  start : pair.place span.start twin.start
  stop : pair.place span.stop twin.stop

def SameText (span twin : Span) : Prop :=
  ∃ text, span.Spells pair.source text ∧ twin.Spells pair.other text

/-- Spans over the same bytes at places that stand for each other. -/
structure Reads (span twin : Span) : Prop extends pair.Spans span twin where
  text : pair.SameText span twin

/-- A glyph that stands for another one. Only line breaks may be spelled in another way. -/
structure Counterpart (glyph twin : Glyph) : Prop extends pair.Spans glyph.span twin.span where
  char : twin.char = glyph.char
  col : twin.span.start.col = 1 ↔ glyph.span.start.col = 1
  text : glyph.char ≠ '\n' → pair.SameText glyph.span twin.span

/-- Outcomes that are the same up to places: the same fault, or results that are related. -/
def Agree {Value Other : Type} (related : Value → Other → Prop) :
    Except SyntaxError Value → Except SyntaxError Other → Prop
  | .error error, .error twin => twin.fault = error.fault ∧ pair.place error.place twin.place
  | .ok value, .ok twin => related value twin
  | _, _ => False

variable {pair}

theorem Spans.through {span twin next nextTwin : Span} (first : pair.Spans span twin)
    (second : pair.Spans next nextTwin) : pair.Spans (span.through next) (twin.through nextTwin) :=
  ⟨first.start, second.stop⟩

theorem SameText.slice_eq {span twin : Span} (same : pair.SameText span twin) :
    twin.slice pair.other = span.slice pair.source := by
  obtain ⟨text, spells, spellsTwin⟩ := same
  rw [spells.slice_eq, spellsTwin.slice_eq]

theorem SameText.through {span twin next nextTwin : Span} (first : pair.SameText span twin)
    (second : pair.SameText next nextTwin) (touches : span.stop = next.start)
    (touchesTwin : twin.stop = nextTwin.start) :
    pair.SameText (span.through next) (twin.through nextTwin) := by
  obtain ⟨text, spells, spellsTwin⟩ := first
  obtain ⟨more, spellsNext, spellsNextTwin⟩ := second
  exact ⟨text ++ more, spells.through spellsNext touches,
    spellsTwin.through spellsNextTwin touchesTwin⟩

theorem Agree.outcomes {Value Other : Type} {related : Value → Other → Prop}
    {outcome : Except SyntaxError Value} {twin : Except SyntaxError Other}
    (agree : pair.Agree related outcome twin) :
    (∃ error other, outcome = .error error ∧ twin = .error other ∧ other.fault = error.fault ∧
      pair.place error.place other.place) ∨
    ∃ value other, outcome = .ok value ∧ twin = .ok other ∧ related value other := by
  cases outcome with
  | error error =>
      cases twin with
      | error other => exact .inl ⟨error, other, rfl, rfl, agree⟩
      | ok other => exact agree.elim
  | ok value =>
      cases twin with
      | error other => exact agree.elim
      | ok other => exact .inr ⟨value, other, rfl, rfl, agree⟩

theorem Agree.imp {Value Other : Type} {related stronger : Value → Other → Prop}
    {outcome : Except SyntaxError Value} {twin : Except SyntaxError Other}
    (agree : pair.Agree related outcome twin)
    (gives : ∀ value other, outcome = .ok value → twin = .ok other → related value other →
      stronger value other) : pair.Agree stronger outcome twin := by
  obtain ⟨error, other, rfl, rfl, same⟩ | ⟨value, other, rfl, rfl, alike⟩ := agree.outcomes
  · exact same
  · exact gives value other rfl rfl alike

theorem Agree.bind {Value Other Next NextOther : Type} {related : Value → Other → Prop}
    {relatedNext : Next → NextOther → Prop} {outcome : Except SyntaxError Value}
    {twin : Except SyntaxError Other} {next : Value → Except SyntaxError Next}
    {nextTwin : Other → Except SyntaxError NextOther} (first : pair.Agree related outcome twin)
    (second : ∀ value other, outcome = .ok value → twin = .ok other → related value other →
      pair.Agree relatedNext (next value) (nextTwin other)) :
    pair.Agree relatedNext (outcome >>= next) (twin >>= nextTwin) := by
  obtain ⟨error, other, rfl, rfl, same⟩ | ⟨value, other, rfl, rfl, alike⟩ := first.outcomes
  · exact same
  · exact second value other rfl rfl alike

section Itself

variable {source : Text} {holds : Location → Prop}
  {marks : ∀ left, left <:+ source.glyphs → holds (source.placeOf left)}

def itself (source : Text) (holds : Location → Prop)
    (marks : ∀ left, left <:+ source.glyphs → holds (source.placeOf left)) : Respacing where
  source := source
  other := source
  place place _ := holds place
  stops := marks [] List.nil_suffix

theorem counterpart_itself {glyph : Glyph} {left : List Glyph}
    (within : glyph :: left <:+ source.glyphs) :
    (itself source holds marks).Counterpart glyph glyph := by
  have stop : glyph.span.stop = source.placeOf left := Text.stop_eq_placeOf within
  have behind : left <:+ source.glyphs := (List.suffix_cons _ _).trans within
  have held : holds glyph.span.stop := by
    rw [stop]
    exact marks left behind
  refine ⟨⟨marks _ within, held⟩, rfl, Iff.rfl, ?_⟩
  intro inLine
  have cut : [glyph] ++ left <:+ source.glyphs := within
  obtain ⟨first, second, third, split, begins, ends, -, -⟩ := Text.exists_cut cut
  have spells : glyph.span.Spells source second := ⟨first, third, split, begins, stop ▸ ends⟩
  exact ⟨second, spells, spells⟩

end Itself

end Respacing

end ScopeLint
