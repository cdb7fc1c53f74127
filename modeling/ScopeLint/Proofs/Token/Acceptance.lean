import ScopeLint.Proofs.Token.Readings

/-!
What makes the classifier stop. Modes decide how a lexeme is read, never whether it can be read: the
only faults are a backtick that touches something else than a line break and what strings may not
hold, and nothing takes backticks, strings or groups along. So lexemes that are accepted as one stream
are accepted as every stream, from every mode.
-/

namespace ScopeLint.Token

variable {source : Text} {stream : Stream} {progress : Progress} {tree : Tree} {rest : List Tree}

def isHarmless : Tree → Bool
  | .word .. => true
  | .number _ => true
  | .symbol char .. => char ≠ '\x60'
  | _ => false

theorem isHarmless_of_companion (companion : isCompanion tree = true) : isHarmless tree = true := by
  cases tree with
  | symbol char span spacing =>
      have other : char ≠ '\x60' := by
        rintro rfl
        cases companion
      simp [isHarmless, other]
  | string | group => cases companion
  | word | number => rfl

theorem isHarmless_of_argument (continued : continuesArgument tree = true) :
    isHarmless tree = true := by
  cases tree with
  | symbol char span spacing =>
      have other : char ≠ '\x60' := by
        rintro rfl
        cases continued
      simp [isHarmless, other]
  | string | group => cases continued
  | word | number => rfl

theorem Acts.takes_harmless {made : Move} (acts : Acts source stream progress rest tree made) :
    ∀ next ∈ rest.take made.skip, isHarmless next = true := by
  rcases acts.companions with companions | ⟨span, spacing, rfl, -, -, skip⟩
  · exact fun next member => isHarmless_of_companion (companions next member)
  · intro next member
    rw [skip, argumentRun_eq] at member
    exact isHarmless_of_argument (run_takes _ _ _ _ next member)

theorem ofSymbol_accepts_iff {mode : Mode} {char : Char} {span : Span} {spacing : Spacing} :
    (∃ effect, ofSymbol stream mode char span spacing rest = .ok effect) ↔
      (char = '\x60' → spacing = .joined → nextIsSymbol '\n' rest = true) := by
  rw [ofSymbol_eq]
  by_cases tick : char = '\x60' ∧ spacing = .joined
  · rw [if_pos (by simpa using tick)]
    split
    next feed => simp [feed]
    next noFeed => simp [tick, noFeed]
  · rw [if_neg (by simpa using tick)]
    refine iff_of_true ?_ fun char spacing => absurd ⟨char, spacing⟩ tick
    repeat' split
    all_goals exact ⟨_, rfl⟩

theorem exists_move_of_harmless (harmless : isHarmless tree = true) :
    ∃ made, move source stream progress tree rest = .ok made := by
  cases tree with
  | word | number => exact ⟨_, rfl⟩
  | symbol char span spacing =>
      have other : char ≠ '\x60' := by simpa [isHarmless] using harmless
      simp only [move, moveSymbol]
      split
      next => exact ⟨_, rfl⟩
      next =>
        obtain ⟨effect, done⟩ : ∃ effect,
            ofSymbol stream progress.mode char span spacing rest = .ok effect :=
          ofSymbol_accepts_iff.mpr fun tick => absurd tick other
        rw [done]
        exact ⟨_, rfl⟩
  | string | group => cases harmless

/-- Whether a lexeme can be read depends on the stream only for what is inside it. -/
theorem exists_move_of_move {made : Move} {other : Stream} {otherProgress : Progress}
    (moved : move source stream progress tree rest = .ok made)
    (inside : ∀ other, ∃ tokens, classifyInside source other tree = .ok tokens) :
    ∃ again, move source other otherProgress tree rest = .ok again := by
  cases tree with
  | word | number => exact ⟨_, rfl⟩
  | symbol char span spacing =>
      simp only [move, moveSymbol] at moved ⊢
      split at moved
      next marks =>
        rw [if_pos marks]
        exact ⟨_, rfl⟩
      next plain =>
        rw [if_neg plain]
        obtain ⟨effect, done, -⟩ := Except.exists_of_bind moved
        obtain ⟨again, doneAgain⟩ : ∃ effect,
            ofSymbol other otherProgress.mode char span spacing rest = .ok effect :=
          ofSymbol_accepts_iff.mpr (ofSymbol_accepts_iff.mp ⟨effect, done⟩)
        rw [doneAgain]
        exact ⟨_, rfl⟩
  | string span parts =>
      obtain ⟨tokens, held⟩ := inside other
      rw [move, held]
      exact ⟨_, rfl⟩
  | group delimiter span body =>
      obtain ⟨tokens, held⟩ := inside ⟨innerMode other otherProgress delimiter, delimiter⟩
      rw [move, held]
      exact ⟨_, rfl⟩

theorem exists_inside_of_move {made : Move}
    (moved : move source stream progress tree rest = .ok made) :
    ∃ own, ∃ tokens, classifyInside source own tree = .ok tokens := by
  cases acts_of_move moved with
  | string inside => exact ⟨_, _, inside⟩
  | group inside => exact ⟨_, _, inside⟩
  | _ => exact ⟨stream, [], by simp [classifyInside]⟩

mutual

theorem classifyInside_accepts (tree : Tree) (stream other : Stream)
    (accepted : ∃ tokens, classifyInside source stream tree = .ok tokens) :
    ∃ tokens, classifyInside source other tree = .ok tokens := by
  cases tree with
  | string span parts =>
      rw [classifyInside] at accepted ⊢
      exact accepted
  | group delimiter span body =>
      rw [classifyInside] at accepted ⊢
      exact classify_accepts body stream other _ _ 0 0 (by simp) accepted
  | word | symbol | number => exact ⟨[], by simp [classifyInside]⟩

/-- Lexemes that one stream accepts are accepted by every other one, wherever it has got to. -/
theorem classify_accepts (trees : List Tree) (stream other : Stream)
    (progress otherProgress : Progress) (skip otherSkip : Nat)
    (harmless : ∀ tree ∈ trees.take skip, isHarmless tree = true)
    (accepted : ∃ tokens, classify source stream progress skip trees = .ok tokens) :
    ∃ tokens, classify source other otherProgress otherSkip trees = .ok tokens := by
  cases trees with
  | nil => exact ⟨[], classify_nil _ _ _ _⟩
  | cons tree rest =>
      obtain ⟨tokens, accepted⟩ := accepted
      -- The first lexeme can be read, and so can the others whatever is made of it.
      have moves : ∃ made, move source other otherProgress tree rest = .ok made := by
        cases skip with
        | succ skip => exact exists_move_of_harmless (harmless tree List.mem_cons_self)
        | zero =>
            rw [classify_cons] at accepted
            obtain ⟨made, moved, -⟩ := Except.exists_of_bind accepted
            apply exists_move_of_move moved
            intro inner
            obtain ⟨own, held⟩ := exists_inside_of_move moved
            exact classifyInside_accepts tree own inner held
      have others (next : Progress) (left : Nat) :
          ∃ tokens, classify source other next left rest = .ok tokens := by
        cases skip with
        | succ skip =>
            rw [classify_skip] at accepted
            exact classify_accepts rest stream other progress next skip left
              (fun tree member => harmless tree (List.mem_cons_of_mem _ member)) ⟨tokens, accepted⟩
        | zero =>
            rw [classify_cons] at accepted
            obtain ⟨made, moved, accepted⟩ := Except.exists_of_bind accepted
            obtain ⟨behind, done, -⟩ := Except.exists_of_bind accepted
            exact classify_accepts rest stream other made.progress next made.skip left
              (acts_of_move moved).takes_harmless ⟨behind, done⟩
      cases otherSkip with
      | succ otherSkip =>
          rw [classify_skip]
          exact others otherProgress otherSkip
      | zero =>
          obtain ⟨made, moved⟩ := moves
          obtain ⟨behind, done⟩ := others made.progress made.skip
          rw [classify_of_move moved, done]
          exact ⟨_, rfl⟩

end

end ScopeLint.Token
