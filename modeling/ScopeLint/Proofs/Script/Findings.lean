import ScopeLint.Proofs.Token.Respacing
import ScopeLint.Script.Basic

/-!
Where the findings of a script are. Every finding is the span of a token, or of the type name in
brackets, so tokens that are alike in two texts have findings whose spans are read alike.
-/

namespace ScopeLint.Script

def Finding.span : Finding → Span
  | definition found => found.span
  | usage found => found.span

variable {pair : Respacing} {source : Text}

theorem read_eq (text : Text) :
    read text = (Token.read text.dropMark).map (ofTokens text.dropMark) := by
  change (Token.read text.dropMark >>= fun tokens => pure (ofTokens text.dropMark tokens)) = _
  cases Token.read text.dropMark <;> rfl

theorem reads_typeReference {token twin : Token} (alike : Token.Alike pair token twin) :
    ∀ span ∈ typeReference? token, ∃ other, pair.Reads span other := by
  intro span named
  unfold typeReference? at named
  split at named
  next =>
    obtain rfl := Option.some.inj named
    cases alike with
    | group spans inside =>
        cases inside with
        | cons alike more =>
            cases alike with
            | field reads => exact ⟨_, reads⟩
  next => cases named

theorem span_of_cmdlet {previous : TokenKind} {span : Span} {found : Finding}
    (means : finding? source previous (.cmdlet span) = some found) : found.span = span := by
  simp only [finding?] at means
  split at means
  next => exact Option.some.inj means ▸ rfl
  next =>
    split at means
    next => cases means
    next => exact Option.some.inj means ▸ rfl

theorem span_of_field {previous : TokenKind} {span : Span} {found : Finding}
    (means : finding? source previous (.field span) = some found) : found.span = span := by
  simp only [finding?] at means
  split at means
  next => exact Option.some.inj means ▸ rfl
  next => cases means

theorem reads_finding {token twin : Token} (previous : TokenKind)
    (alike : Token.Alike pair token twin) :
    ∀ found ∈ finding? source previous token, ∃ other, pair.Reads found.span other := by
  intro found means
  have reference := reads_typeReference alike
  cases alike with
  | cmdlet reads => exact ⟨_, span_of_cmdlet means ▸ reads⟩
  | field reads => exact ⟨_, span_of_field means ▸ reads⟩
  | group =>
      simp only [finding?, Option.mem_def, Option.map_eq_some_iff] at means
      obtain ⟨span, named, rfl⟩ := means
      exact reference span named
  | _ => simp [finding?, typeReference?] at means

theorem reads_findings {tokens twins : List Token} (previous : TokenKind)
    (alike : Token.AllAlike pair tokens twins) :
    ∀ found ∈ findings source previous tokens, ∃ other, pair.Reads found.span other := by
  induction tokens generalizing previous twins with
  | nil => simp [findings]
  | cons token rest induction =>
      cases alike with
      | cons alike more =>
          intro found member
          rcases List.mem_append.mp member with first | last
          · exact reads_finding previous alike found (Option.mem_toList.mp first)
          · exact induction token.kind more found last

/-- Whatever is found in the streams of a script is read from its text. -/
theorem reads_found {streams twins : List (List Token)}
    (alike : List.Forall₂ (Token.AllAlike pair) streams twins) :
    ∀ found ∈ streams.flatMap (findings source .symbol), ∃ other, pair.Reads found.span other := by
  induction alike with
  | nil => simp
  | cons first more induction =>
      intro found member
      rw [List.flatMap_cons] at member
      rcases List.mem_append.mp member with inFirst | inLater
      · exact reads_findings .symbol first found inFirst
      · exact induction found inLater

end ScopeLint.Script
