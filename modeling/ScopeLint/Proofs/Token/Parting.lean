import ScopeLint.Proofs.Script.Occurrences
import ScopeLint.Proofs.Token.ClassBodies

/-!
What stands between commands. The mode behind a command expects no other one, so some token stands
between any two commands of a stream; and what a string or group holds keeps a byte away from either
of its ends. Nothing of this shows in the spans of a stream by themselves, which may touch.
-/

namespace ScopeLint.Token

def FollowsCommand (previous : Option Token) : Prop := previous.map kind = some .cmdlet

instance (previous : Option Token) : Decidable (FollowsCommand previous) :=
  inferInstanceAs (Decidable (_ = _))

def Occurrence.Parted (occurrence : Occurrence) : Prop :=
  occurrence.token.kind = .cmdlet → ¬ FollowsCommand occurrence.previous

def Inset : Token → Prop
  | string span parts => Nested (span.start.byte + 1) (span.stop.byte - 1) parts
  | group _ _ span body => Nested (span.start.byte + 1) (span.stop.byte - 1) body
  | _ => True

section Insets

variable {source : Text}

theorem inset_formed : Formed source Inset where
  ofRun := by
    intro run behind token start stop forms level
    have covers : ∀ tree ∈ run, tree.Covers source := fun tree member =>
      (level.covers tree (List.mem_append_left _ member)).2.2.2
    cases forms with
    | string inside =>
        obtain ⟨first, last, low, high, parts⟩ := (covers _ List.mem_cons_self).parts
        exact (nested_of_interpolates inside parts).widen (Int.add_one_le_of_lt low)
          (Int.le_sub_one_of_lt high)
    | group inside =>
        obtain ⟨first, last, low, high, body⟩ := (covers _ List.mem_cons_self).body
        exact (nested_of_regroups inside body).widen (Int.add_one_le_of_lt low)
          (Int.le_sub_one_of_lt high)
    | marked touches inside =>
        obtain ⟨first, last, low, high, body⟩ :=
          (covers _ (List.mem_cons_of_mem _ List.mem_cons_self)).body
        obtain ⟨-, width, after, -, -⟩ := level.pair
        simp only [Tree.span] at width after
        apply (nested_of_regroups inside body).widen
        · simp only [Span.through]
          omega
        · exact Int.le_sub_one_of_lt high
    | command =>
        unfold ofCommand
        dsimp only
        repeat' split
        all_goals trivial
    | _ => trivial
  ofName _ _ := trivial
  ofPart _ _ _ _ inset := inset

end Insets

section Parts

variable {source : Text} {stream : Stream} {progress : Progress} {tree : Tree} {rest : List Tree}
  {holder previous : Option Token} {others : List Token} {made : Move}

/-- No two commands of a stream, or of one inside it, follow each other. -/
def AllParted (holder previous : Option Token) (tokens : List Token) : Prop :=
  ∀ occurrence ∈ occurrencesOf holder previous tokens, occurrence.Parted

theorem allParted_nil (holder previous : Option Token) : AllParted holder previous [] := by
  simp [AllParted, occurrencesOf]

theorem allParted_cons {token : Token} :
    AllParted holder previous (token :: others) ↔
      (token.kind = .cmdlet → ¬ FollowsCommand previous) ∧
        (∀ occurrence ∈ occurrencesIn token, occurrence.Parted) ∧
        AllParted holder (some token) others := by
  rw [AllParted, occurrencesOf, List.forall_mem_cons, List.forall_mem_append]
  rfl

/-- Symbols give signs, and one that gives nothing keeps the mode. -/
theorem SymbolActs.signs {mode : Mode} {span : Span} {char : Char} {effect : Effect}
    (acts : SymbolActs stream mode span rest char effect) :
    (∀ token ∈ effect.tokens, token.kind ∈ signKinds) ∧ (effect.tokens = [] → effect.mode = mode) := by
  cases acts with
  | continuation => exact ⟨by simp, fun _ => rfl⟩
  | dollar word =>
      obtain ⟨name, word⟩ := Option.isSome_iff_exists.mp word
      obtain ⟨spacing, later, rfl⟩ := exists_of_nextWord word
      obtain ⟨whole, more, given⟩ := head_variableRun (some span) name spacing later
      exact ⟨kind_variableRun _ _, by simp [given]⟩
  | _ => simp [kind, signKinds]

theorem occurrencesIn_of_sign {token : Token} (sign : token.kind ∈ signKinds) :
    occurrencesIn token = [] ∧ token.kind ≠ .cmdlet := by
  cases token <;> simp_all [kind, signKinds, occurrencesIn]

theorem allParted_signs {signs : List Token} (all : ∀ token ∈ signs, token.kind ∈ signKinds)
    (unsigned : signs = [] → AllParted holder previous others)
    (more : ∀ last, ¬ FollowsCommand last → AllParted holder last others) :
    AllParted holder previous (signs ++ others) := by
  induction signs generalizing previous with
  | nil => exact unsigned rfl
  | cons sign signs induction =>
      obtain ⟨first, later⟩ := List.forall_mem_cons.mp all
      obtain ⟨empty, other⟩ := occurrencesIn_of_sign first
      have clear : ¬ FollowsCommand (some sign) := fun follows => other (Option.some.inj follows)
      rw [List.cons_append, allParted_cons, empty]
      exact ⟨fun command => absurd command other, by simp, induction later fun _ => more _ clear⟩

/-- The mode behind a command expects no other one. -/
def Expects (previous : Option Token) (progress : Progress) : Prop :=
  FollowsCommand previous → progress.mode ≠ .function

theorem expects_of_kind {token : Token} (other : token.kind ≠ .cmdlet) (progress : Progress) :
    Expects (some token) progress :=
  fun follows => absurd (Option.some.inj follows) other

theorem allParted_plain {token : Token} (empty : occurrencesIn token = []) (other : token.kind ≠ .cmdlet)
    (more : AllParted holder (some token) others) : AllParted holder previous (token :: others) := by
  rw [allParted_cons, empty]
  exact ⟨fun command => absurd command other, by simp, more⟩

theorem ofCommand_cases (source : Text) (span : Span) :
    ofCommand source span = .cmdlet span ∨
      (ofCommand source span).kind ≠ .cmdlet ∧ occurrencesIn (ofCommand source span) = [] := by
  unfold ofCommand
  dsimp only
  repeat' split
  all_goals simp [kind, occurrencesIn]

/-- One move: if the token before is a command it gives no command, and the mode behind it expects
no command behind one either. -/
theorem allParted_move (moved : move source stream progress tree rest = .ok made)
    (inside : ∀ own tokens holder, classifyInside source own tree = .ok tokens →
      AllParted holder none tokens)
    (expects : Expects previous progress)
    (more : ∀ last, Expects last made.progress → AllParted holder last others) :
    AllParted holder previous (made.tokens ++ others) := by
  cases acts_of_move moved with
  | name | membership | argument | number =>
      exact allParted_plain rfl nofun (more _ (expects_of_kind (by nofun) _))
  | @command span spacing expected =>
      have first : ¬ FollowsCommand previous := fun follows => expects follows expected
      generalize (commandRun span spacing rest).1 = whole at more ⊢
      rw [List.singleton_append]
      rcases ofCommand_cases source whole with command | ⟨other, empty⟩
      · rw [command] at more ⊢
        rw [allParted_cons]
        exact ⟨fun _ => first, by simp [occurrencesIn], more _ fun _ => nofun⟩
      · exact allParted_plain empty other (more _ (expects_of_kind other _))
  | mark => exact more _ expects
  | symbol acts =>
      obtain ⟨signs, silent⟩ := acts.signs
      apply allParted_signs signs
      · -- Behind a command, a continued line leaves it the token before.
        intro empty
        refine more _ fun follows => ?_
        rw [silent empty]
        exact expects follows
      · exact fun last clear => more last fun follows => absurd follows clear
  | string held =>
      exact allParted_cons.mpr
        ⟨nofun, inside _ _ _ held, more _ (expects_of_kind (by nofun) _)⟩
  | group held =>
      exact allParted_cons.mpr
        ⟨nofun, inside _ _ _ held, more _ (expects_of_kind (by nofun) _)⟩

mutual

theorem allParted_inside (tree : Tree) (stream : Stream) (tokens : List Token) (holder : Option Token)
    (made : classifyInside source stream tree = .ok tokens) : AllParted holder none tokens := by
  cases tree with
  | string span parts =>
      rw [classifyInside] at made
      exact allParted_interpolate parts tokens holder none made
  | group delimiter span body =>
      rw [classifyInside] at made
      exact allParted_classify body stream _ 0 tokens holder none nofun made
  | word | symbol | number =>
      rw [classifyInside] at made
      · obtain rfl := Except.ok.inj made
        exact allParted_nil holder none
      all_goals nofun

theorem allParted_classify (trees : List Tree) (stream : Stream) (progress : Progress) (skip : Nat)
    (tokens : List Token) (holder previous : Option Token) (expects : Expects previous progress)
    (made : classify source stream progress skip trees = .ok tokens) :
    AllParted holder previous tokens := by
  cases trees with
  | nil =>
      rw [classify_nil] at made
      obtain rfl := Except.ok.inj made
      exact allParted_nil holder previous
  | cons tree rest =>
      cases skip with
      | succ skip =>
          rw [classify_skip] at made
          exact allParted_classify rest stream progress skip tokens holder previous expects made
      | zero =>
          rw [classify_cons] at made
          obtain ⟨step, moved, made⟩ := Except.exists_of_bind made
          obtain ⟨others, continued, same⟩ := Except.exists_of_bind made
          obtain rfl := Except.ok.inj same
          exact allParted_move moved (allParted_inside tree) expects fun last expects =>
            allParted_classify rest stream step.progress step.skip others holder last expects continued

theorem allParted_interpolate (parts : List Tree) (pieces : List Token) (holder previous : Option Token)
    (made : interpolate source parts = .ok pieces) : AllParted holder previous pieces := by
  cases parts with
  | nil =>
      rw [interpolate] at made
      obtain rfl := Except.ok.inj made
      exact allParted_nil holder previous
  | cons part more =>
      cases part with
      | word span spacing =>
          rw [interpolate] at made
          obtain ⟨tokens, continued, same⟩ := Except.exists_of_bind made
          obtain rfl := Except.ok.inj same
          exact allParted_plain rfl nofun (allParted_interpolate more tokens holder _ continued)
      | symbol | number | string => simp [interpolate] at made
      | group delimiter span body =>
          cases delimiter with
          | paren =>
              rw [interpolate] at made
              obtain ⟨inner, done, made⟩ := Except.exists_of_bind made
              obtain ⟨tokens, continued, same⟩ := Except.exists_of_bind made
              obtain rfl := Except.ok.inj same
              exact allParted_cons.mpr ⟨nofun, allParted_inside (.group .paren span body) _ inner _ done,
                allParted_interpolate more tokens holder _ continued⟩
          | brace =>
              rw [interpolate] at made
              dsimp only at made
              split at made
              next => simp at made
              next all =>
                obtain ⟨tokens, continued, same⟩ := Except.exists_of_bind made
                obtain rfl := Except.ok.inj same
                have names := allParted_signs (kind_variableRun none body)
                  (fun _ => allParted_nil (some (.group .paren none span (variableRun none body).1)) none)
                  fun last _ => allParted_nil _ last
                rw [List.append_nil] at names
                exact allParted_cons.mpr
                  ⟨nofun, names, allParted_interpolate more tokens holder _ continued⟩
          | bracket => simp [interpolate] at made

end

/-- In a text that can be read, no command follows a command at any depth. -/
theorem allParted_of_read {tokens : List Token} (accepted : read source = .ok tokens) :
    AllParted none none tokens := by
  obtain ⟨trees, -, made⟩ := Except.exists_of_bind accepted
  exact allParted_classify trees .file (.start .function) 0 tokens none none nofun made

end Parts

end ScopeLint.Token
