import ScopeLint.Project.Strict
import ScopeLint.Proofs.Text.Case
import ScopeLint.Proofs.Token.Names

/-!
The items that scripts can name, and the mark that they cannot. The name of the mark holds a
character that no name has and no letter turns into, so no item of a script shares its key; and no
class is called like a command with a dash.
-/

namespace ScopeLint

/-- An item whose name is spelled like one of its kind. Marks are never written. -/
def Item.Written (item : Item) : Prop :=
  match item.kind with
  | .function => ∀ char ∈ item.name.visible, Token.continuesCommand char = true
  | .classType => ∀ char ∈ item.name.visible, Tree.continuesWord char = true
  | .pseudo => False

namespace Script

variable {source : Text} {found : Finding}

def Finding.item : Finding → Item
  | definition found => found.item
  | usage found => found.item

theorem typeReference_eq_some {token : Token} {span : Span}
    (reference : typeReference? token = some span) :
    ∃ sign whole, token = .group .bracket sign whole [.field span] := by
  unfold typeReference? at reference
  split at reference
  next sign whole inner =>
    obtain rfl := Option.some.inj reference
    exact ⟨sign, whole, rfl⟩
  next => simp at reference

theorem written_finding {previous : TokenKind} {token : Token} (named : token.Named source)
    (means : finding? source previous token = some found) : found.item.Written := by
  unfold finding? at means
  split at means
  next span =>
    rw [Token.Named] at named
    dsimp only at means
    split at means
    · obtain rfl := Option.some.inj means
      exact named
    · split at means
      · simp at means
      · obtain rfl := Option.some.inj means
        exact named
  next span =>
    rw [Token.Named] at named
    split at means
    · obtain rfl := Option.some.inj means
      exact named
    · simp at means
  next token _ _ =>
    obtain ⟨span, reference, rfl⟩ := Option.map_eq_some_iff.mp means
    obtain ⟨sign, whole, rfl⟩ := typeReference_eq_some reference
    simp only [Token.Named, Token.NamedAll, and_true] at named
    exact named

theorem written_findings (previous : TokenKind) (tokens : List Token)
    (named : Token.NamedAll source tokens) :
    ∀ found ∈ findings source previous tokens, found.item.Written := by
  induction tokens generalizing previous with
  | nil => simp [findings]
  | cons token rest induction =>
      rw [Token.NamedAll] at named
      intro found member
      rw [findings] at member
      rcases List.mem_append.mp member with first | later
      · exact written_finding named.1 (Option.mem_toList.mp first)
      · exact induction _ named.2 found later

theorem written_of_read {text : Text} {script : Script} (accepted : read text = .ok script) :
    (∀ definition ∈ script.definitions, definition.item.Written) ∧
      ∀ usage ∈ script.usages, usage.item.Written := by
  obtain ⟨tokens, tokenized, same⟩ := Except.exists_of_bind accepted
  obtain rfl := Except.ok.inj same
  have named := Token.named_of_read tokenized
  have written : ∀ found ∈ (Token.streams tokens).flatMap (findings text.dropMark .symbol),
      found.item.Written := by
    intro found member
    obtain ⟨stream, inside, listed⟩ := List.mem_flatMap.mp member
    refine written_findings .symbol stream ?_ found listed
    rcases List.mem_cons.mp inside with rfl | inner
    · exact named
    · exact Token.namedAll_of_innerStreamsOf tokens named stream inner
  constructor
  · intro definition member
    obtain ⟨found, listed, same⟩ := List.mem_filterMap.mp member
    cases found with
    | definition => exact Option.some.inj same ▸ written _ listed
    | usage => simp [Finding.definition?] at same
  · intro usage member
    obtain ⟨found, listed, same⟩ := List.mem_filterMap.mp member
    cases found with
    | definition => simp [Finding.usage?] at same
    | usage => exact Option.some.inj same ▸ written _ listed

end Script

namespace Item

open Text

theorem not_mem_of_written {item : Item} (written : item.Written) {mark : Char}
    (visible : mark ≠ '\r') (foreign : Token.continuesCommand mark = false) :
    mark ∉ item.name.chars := by
  intro member
  have shown : mark ∈ item.name.visible := by simp [Text.visible, member, visible]
  unfold Written at written
  split at written
  · exact absurd (written mark shown) (by simp [foreign])
  · exact absurd (Token.continuesCommand_of_word (written mark shown)) (by simp [foreign])
  · exact written

/-- No item of a script is looked up by the key of the mark. -/
theorem key_ne_strictMode {item : Item} (written : item.Written) : item.key ≠ strictMode.key := by
  intro same
  have inside : byte '!' ∈ item.name.lower := by
    rw [show item.name.lower = strictMode.name.lower from congrArg Key.name same]
    decide +kernel
  exact not_mem_of_written written (by decide) (by decide +kernel)
    (mem_of_mem_lower ⟨by decide, by decide⟩ (by decide) inside)

theorem kind_of_strictCommand {item : Item} (written : item.Written)
    (called : item.name.sameFold strictCommand = true) : item.kind = .function := by
  have folded : item.name.fold = strictCommand.fold := by simpa [sameFold] using called
  have inside : '-' ∈ item.name.fold := by
    rw [folded]
    decide +kernel
  have dash := mem_of_mem_fold ⟨by decide, by decide⟩ (by decide) inside
  unfold Written at written
  split at written
  next kind => exact kind
  next =>
    have shown : '-' ∈ item.name.visible := by simp [Text.visible, dash]
    exact absurd (written '-' shown) (by decide +kernel)
  next => exact written.elim

end Item

end ScopeLint
