import Mathlib.Data.List.Chain
import ScopeLint.Proofs.Token.Acts

/-!
What the classifier makes of lexemes, with its modes forgotten. The lexemes of a stream are cut into
runs, and each run becomes one token; left over are only the line breaks behind operators and the
backticks that continue a line, with the line breaks they continue. Proofs about spans and names go
by this relation and never look at the modes.
-/

namespace ScopeLint.Token

def spanThrough (span : Span) (others : List Tree) : Span :=
  others.foldl (fun whole tree => whole.through tree.span) span

def Touching (trees : List Tree) : Prop := trees.IsChain fun tree _ => tree.spacing = .joined

mutual

/-- A run of lexemes and a token that may stand for it. -/
inductive Forms (source : Text) : List Tree → Token → Prop
  | field {span : Span} {spacing : Spacing} : Forms source [.word span spacing] (.field span)
  | command {span : Span} {spacing : Spacing} {others : List Tree}
      (touching : Touching (.word span spacing :: others))
      (continued : ∀ tree ∈ others, continuesName tree = true) :
      Forms source (.word span spacing :: others) (ofCommand source (spanThrough span others))
  | membership {span : Span} {spacing : Spacing} :
      Forms source [.word span spacing] (.keyword .in span)
  | argument {span : Span} {spacing : Spacing} {others : List Tree}
      (touching : Touching (.word span spacing :: others))
      (continued : ∀ tree ∈ others, continuesArgument tree = true) :
      Forms source (.word span spacing :: others) (.word (spanThrough span others))
  | dollar {sign name : Span} {touching spacing : Spacing} :
      Forms source [.symbol '$' sign touching, .word name spacing]
        (.variable (sign.through name) name)
  /-- A name behind the colon of a scope, or in a block of a string. -/
  | bare {name : Span} {spacing : Spacing} :
      Forms source [.word name spacing] (.variable name name)
  | flag {dash name : Span} {touching spacing : Spacing} :
      Forms source [.symbol '-' dash touching, .word name spacing] (.flag (dash.through name) name)
  | doubleColon {first second : Span} {touching spacing : Spacing} :
      Forms source [.symbol ':' first touching, .symbol ':' second spacing]
        (.doubleColon (first.through second))
  | symbol {char : Char} {span : Span} {spacing : Spacing} :
      Forms source [.symbol char span spacing] (.symbol char span)
  | lineBreak {span : Span} {spacing : Spacing} :
      Forms source [.symbol '\n' span spacing] (.symbol ';' span)
  | number {span : Span} : Forms source [.number span] (.number span)
  | string {span : Span} {parts : List Tree} {pieces : List Token}
      (inside : Interpolates source parts pieces) :
      Forms source [.string span parts] (.string span pieces)
  | group {delimiter : Delimiter} {span : Span} {body : List Tree} {inner : List Token}
      (inside : Regroups source body inner) :
      Forms source [.group delimiter span body] (.group delimiter none span inner)
  | marked {delimiter : Delimiter} {sign span : Span} {touching : Spacing} {body : List Tree}
      {inner : List Token} (touches : sign.stop = span.start) (inside : Regroups source body inner) :
      Forms source [.symbol '@' sign touching, .group delimiter span body]
        (.group delimiter (some .atSign) (sign.through span) inner)

/-- The lexemes of a stream and the tokens that they are grouped into. -/
inductive Regroups (source : Text) : List Tree → List Token → Prop
  | nil : Regroups source [] []
  | cons {run rest : List Tree} {token : Token} {tokens : List Token} (forms : Forms source run token)
      (more : Regroups source rest tokens) : Regroups source (run ++ rest) (token :: tokens)
  /-- An operator takes the line break behind it along. -/
  | operator {char : Char} {span feed : Span} {touching spacing : Spacing} {rest : List Tree}
      {tokens : List Token} (absorbs : char = '|' ∨ char = '+') (more : Regroups source rest tokens) :
      Regroups source (.symbol char span touching :: .symbol '\n' feed spacing :: rest)
        (.symbol char span :: tokens)
  | continuation {span feed : Span} {spacing : Spacing} {rest : List Tree} {tokens : List Token}
      (more : Regroups source rest tokens) :
      Regroups source (.symbol '\x60' span .joined :: .symbol '\n' feed spacing :: rest) tokens

inductive Interpolates (source : Text) : List Tree → List Token → Prop
  | nil : Interpolates source [] []
  | variable {span : Span} {spacing : Spacing} {parts : List Tree} {pieces : List Token}
      (more : Interpolates source parts pieces) :
      Interpolates source (.word span spacing :: parts) (.variable span span :: pieces)
  | block {span : Span} {body parts : List Tree} {names pieces : List Token}
      (inside : Regroups source body names) (more : Interpolates source parts pieces) :
      Interpolates source (.group .brace span body :: parts) (.group .paren none span names :: pieces)
  | expression {span : Span} {body parts : List Tree} {inner pieces : List Token}
      (inside : Regroups source body inner) (more : Interpolates source parts pieces) :
      Interpolates source (.group .paren span body :: parts)
        (.group .paren (some .dollar) span inner :: pieces)

end

section Runs

variable {source : Text} {stream : Stream} {mode : Mode} {rest trees : List Tree} {first second : Tree}
  {token : Token} {others : List Token}

theorem Forms.single (forms : Forms source [first] token) (more : Regroups source rest others) :
    Regroups source (first :: rest) (token :: others) :=
  .cons forms more

theorem Forms.pair (forms : Forms source [first, second] token) (more : Regroups source rest others) :
    Regroups source (first :: second :: rest) (token :: others) :=
  .cons forms more

theorem run_spanThrough (continues : Tree → Bool) (span : Span) (spacing : Spacing) (rest : List Tree) :
    (run continues span spacing rest).1 =
      spanThrough span (rest.take (run continues span spacing rest).2) := by
  induction rest generalizing span spacing with
  | nil => rfl
  | cons next rest induction =>
      rw [run]
      split
      next => exact induction _ _
      next => rfl

theorem run_touching (continues : Tree → Bool) (span : Span) (first : Tree) (rest : List Tree) :
    Touching (first :: rest.take (run continues span first.spacing rest).2) := by
  induction rest generalizing span first with
  | nil => exact List.IsChain.singleton first
  | cons next rest induction =>
      rw [run]
      split
      next continued =>
        have joined : first.spacing = .joined := by
          simpa using (Bool.and_eq_true_iff.mp continued).1
        exact List.IsChain.cons_cons joined (induction _ next)
      next => exact List.IsChain.singleton first

theorem exists_of_nextIsSymbol {char : Char} (next : nextIsSymbol char rest = true) :
    ∃ span spacing later, rest = .symbol char span spacing :: later := by
  cases rest with
  | nil => cases next
  | cons first later =>
      have same : first.isSymbol char = true := by simpa [nextIsSymbol] using next
      cases first with
      | symbol mark span spacing =>
          obtain rfl : mark = char := by simpa [Tree.isSymbol] using same
          exact ⟨span, spacing, later, rfl⟩
      | _ => cases same

theorem regroups_variableRun (touching : Spacing) (sign : Option Span) (trees : List Tree)
    (named : sign = none ∨ (nextWord? trees).isSome = true)
    (more : Regroups source (trees.drop (variableRun sign trees).2) others) :
    Regroups source ((sign.map fun span => Tree.symbol '$' span touching).toList ++ trees)
      ((variableRun sign trees).1 ++ others) := by
  induction sign, trees using variableRun.induct with
  | case1 sign name colon rest tokens count run induction =>
      rw [run] at induction
      simp only [variableRun, run, List.drop_succ_cons] at more ⊢
      have names : Regroups source (.symbol ':' colon .joined :: rest)
          (.symbol ':' colon :: (tokens ++ others)) :=
        Forms.symbol.single (induction (.inl rfl) more)
      cases sign with
      | none => exact Forms.bare.single names
      | some span => exact Forms.dollar.pair names
  | case2 sign name spacing rest other =>
      rw [variableRun_single other] at more ⊢
      cases sign with
      | none => exact Forms.bare.single more
      | some span => exact Forms.dollar.pair more
  | case3 trees sign other =>
      have nothing : variableRun sign trees = ([], 0) := by
        rw [variableRun]
        exact other
      rw [nothing] at more ⊢
      rcases named with rfl | word
      · exact more
      · obtain ⟨name, word⟩ := Option.isSome_iff_exists.mp word
        obtain ⟨spacing, later, rfl⟩ := exists_of_nextWord word
        exact absurd rfl (other name spacing later)

/-- Of the backticks only those that touch the line break are silent. -/
theorem joined_of_silent {span : Span} {spacing : Spacing} {effect : Effect}
    (made : ofSymbol stream mode '\x60' span spacing rest = .ok effect) (silent : effect.tokens = []) :
    spacing = .joined := by
  cases spacing with
  | joined => rfl
  | alone =>
      simp [ofSymbol_eq, otherEffect] at made
      rw [← made] at silent
      cases silent

end Runs

section Classifier

variable {source : Text} {stream : Stream} {progress : Progress} {tree : Tree}
  {held rest : List Tree} {others : List Token}

/-- The at sign that has been held back for the group in front of it, if there is one. -/
inductive Held (progress : Progress) : List Tree → List Tree → Prop
  | nothing {left : List Tree} (unsigned : progress.atSign = none) : Held progress [] left
  | atSign {sign span : Span} {touching : Spacing} {delimiter : Delimiter} {body rest : List Tree}
      (signed : progress.atSign = some sign) (touches : sign.stop = span.start) :
      Held progress [.symbol '@' sign touching] (.group delimiter span body :: rest)

theorem Held.unsigned (sign : Held progress held (tree :: rest)) (plain : tree.kind ≠ .group) :
    held = [] ∧ progress.atSign = none := by
  cases sign with
  | nothing unsigned => exact ⟨rfl, unsigned⟩
  | atSign => exact absurd rfl plain

def Inside (source : Text) : Tree → List Token → Prop
  | .string _ parts, pieces => Interpolates source parts pieces
  | .group _ _ body, inner => Regroups source body inner
  | _, _ => True

theorem held_of_marksGroup {mark : Char} {span : Span} (touching : Spacing)
    (marks : marksGroup mark span rest = true) :
    Held { progress with atSign := some span } [.symbol mark span touching] rest := by
  unfold marksGroup at marks
  split at marks
  next delimiter next body later =>
    obtain ⟨rfl, touches⟩ : mark = '@' ∧ span.stop = next.start := by simpa using marks
    exact .atSign rfl touches
  next => cases marks

theorem regroups_symbol {mode : Mode} {char : Char} {span : Span} {spacing : Spacing} {effect : Effect}
    (made : ofSymbol stream mode char span spacing rest = .ok effect)
    (more : Regroups source (rest.drop effect.skip) others) :
    Regroups source (.symbol char span spacing :: rest) (effect.tokens ++ others) := by
  cases symbolActs made with
  | continuation feed =>
      obtain rfl := joined_of_silent made rfl
      obtain ⟨newline, touching, later, rfl⟩ := exists_of_nextIsSymbol feed
      exact .continuation more
  | lineBreak => exact Forms.lineBreak.single more
  | bar =>
      dsimp only at more
      split at more
      next feed =>
        obtain ⟨newline, touching, later, rfl⟩ := exists_of_nextIsSymbol feed
        exact .operator (.inl rfl) more
      next => exact Forms.symbol.single more
  | plus =>
      dsimp only at more
      split at more
      next feed =>
        obtain ⟨newline, touching, later, rfl⟩ := exists_of_nextIsSymbol feed
        exact .operator (.inr rfl) more
      next => exact Forms.symbol.single more
  | dollar word => exact regroups_variableRun spacing (some span) rest (.inr word) more
  | flag word =>
      obtain ⟨touching, later, rfl⟩ := exists_of_nextWord word
      exact Forms.flag.pair more
  | doubleColon colon =>
      obtain ⟨touching, later, rfl⟩ := exists_of_nextColon colon
      exact Forms.doubleColon.pair more
  | plain => exact Forms.symbol.single more

theorem atSign_afterCommand (progress : Progress) (token : Token) :
    (progress.afterCommand token).atSign = progress.atSign := by
  unfold Progress.afterCommand
  split <;> rfl

theorem regroups_run (continues : Tree → Bool) {span : Span} {spacing : Spacing} {token : Token}
    (forms : ∀ others : List Tree, Touching (.word span spacing :: others) →
      (∀ next ∈ others, continues next = true) →
      (run continues span spacing rest).1 = spanThrough span others →
      Forms source (.word span spacing :: others) token)
    (more : Regroups source (rest.drop (run continues span spacing rest).2) others) :
    Regroups source (.word span spacing :: rest) (token :: others) := by
  have whole := forms (rest.take (run continues span spacing rest).2)
    (run_touching continues span (.word span spacing) rest) (run_takes continues span spacing rest)
    (run_spanThrough continues span spacing rest)
  have grouped := Regroups.cons whole more
  rwa [List.cons_append, List.take_append_drop] at grouped

theorem regroups_word {made : Move} {span : Span} {spacing : Spacing}
    (acts : Acts source stream progress rest (.word span spacing) made)
    (more : made.progress.atSign = progress.atSign → Regroups source (rest.drop made.skip) others) :
    Regroups source (.word span spacing :: rest) (made.tokens ++ others) := by
  cases acts with
  | name => exact Forms.field.single (more rfl)
  | command =>
      have behind := more (atSign_afterCommand _ _)
      rw [commandRun_eq] at behind ⊢
      refine regroups_run continuesName ?_ behind
      intro taken touching continued whole
      rw [whole]
      exact .command touching continued
  | membership => exact Forms.membership.single (more rfl)
  | argument =>
      have behind := more rfl
      rw [argumentRun_eq] at behind ⊢
      refine regroups_run continuesArgument ?_ behind
      intro taken touching continued whole
      rw [whole]
      exact .argument touching continued

/-- One move: what it takes and what it gives come in front of the others. -/
theorem regroups_move {made : Move} (moved : move source stream progress tree rest = .ok made)
    (inside : ∀ own tokens, classifyInside source own tree = .ok tokens → Inside source tree tokens)
    (sign : Held progress held (tree :: rest))
    (more : ∀ front, Held made.progress front (rest.drop made.skip) →
      Regroups source (front ++ rest.drop made.skip) others) :
    Regroups source (held ++ tree :: rest) (made.tokens ++ others) := by
  cases tree with
  | word span spacing =>
      obtain ⟨rfl, unsigned⟩ := sign.unsigned (by simp [Tree.kind])
      exact regroups_word (acts_of_move moved) fun kept => more [] (.nothing (kept.trans unsigned))
  | symbol char span spacing =>
      obtain ⟨rfl, unsigned⟩ := sign.unsigned (by simp [Tree.kind])
      simp only [move, moveSymbol] at moved
      split at moved
      next marks =>
        obtain rfl := Except.ok.inj moved
        exact more _ (held_of_marksGroup spacing marks)
      next =>
        obtain ⟨effect, done, same⟩ := Except.exists_of_bind moved
        obtain rfl := Except.ok.inj same
        exact regroups_symbol done (more [] (.nothing unsigned))
  | number span =>
      obtain ⟨rfl, unsigned⟩ := sign.unsigned (by simp [Tree.kind])
      obtain rfl := Except.ok.inj moved
      exact Forms.number.single (more [] (.nothing unsigned))
  | string span parts =>
      obtain ⟨rfl, unsigned⟩ := sign.unsigned (by simp [Tree.kind])
      obtain ⟨pieces, done, same⟩ := Except.exists_of_bind moved
      obtain rfl := Except.ok.inj same
      exact (Forms.string (inside _ _ done)).single (more [] (.nothing unsigned))
  | group delimiter span body =>
      obtain ⟨inner, done, same⟩ := Except.exists_of_bind moved
      obtain rfl := Except.ok.inj same
      have behind := more [] (.nothing rfl)
      have regrouped : Regroups source body inner := inside _ _ done
      cases sign with
      | nothing unsigned =>
          simp only [groupToken, unsigned, Option.map_none, Option.getD_none]
          exact (Forms.group regrouped).single behind
      | atSign signed touches =>
          simp only [groupToken, signed, Option.map_some, Option.getD_some]
          exact (Forms.marked touches regrouped).pair behind

mutual

theorem regroups_inside (tree : Tree) (stream : Stream) (tokens : List Token)
    (made : classifyInside source stream tree = .ok tokens) : Inside source tree tokens := by
  cases tree with
  | string span parts =>
      rw [classifyInside] at made
      exact interpolates parts tokens made
  | group delimiter span body =>
      rw [classifyInside] at made
      exact regroups_classify body stream _ 0 tokens made [] (.nothing rfl)
  | word | symbol | number => trivial

theorem regroups_classify (trees : List Tree) (stream : Stream) (progress : Progress) (skip : Nat)
    (tokens : List Token) (made : classify source stream progress skip trees = .ok tokens)
    (held : List Tree) (sign : Held progress held (trees.drop skip)) :
    Regroups source (held ++ trees.drop skip) tokens := by
  cases trees with
  | nil =>
      rw [classify_nil] at made
      obtain rfl := Except.ok.inj made
      rw [List.drop_nil] at sign ⊢
      cases sign
      exact .nil
  | cons tree rest =>
      cases skip with
      | succ skip =>
          rw [classify_skip] at made
          exact regroups_classify rest stream progress skip tokens made held sign
      | zero =>
          rw [classify_cons] at made
          obtain ⟨step, moved, made⟩ := Except.exists_of_bind made
          obtain ⟨others, continued, same⟩ := Except.exists_of_bind made
          obtain rfl := Except.ok.inj same
          -- An at sign gives no token of its own and is held until its group is met.
          exact regroups_move moved (regroups_inside tree) sign
            (regroups_classify rest stream step.progress step.skip others continued)

theorem interpolates (parts : List Tree) (pieces : List Token)
    (made : interpolate source parts = .ok pieces) : Interpolates source parts pieces := by
  cases parts with
  | nil =>
      rw [interpolate] at made
      obtain rfl := Except.ok.inj made
      exact .nil
  | cons part more =>
      have others := interpolates more
      cases part with
      | word span spacing =>
          rw [interpolate] at made
          obtain ⟨tokens, continued, same⟩ := Except.exists_of_bind made
          obtain rfl := Except.ok.inj same
          exact .variable (others tokens continued)
      | symbol | number | string => simp [interpolate] at made
      | group delimiter span body =>
          cases delimiter with
          | paren =>
              rw [interpolate] at made
              obtain ⟨inner, done, made⟩ := Except.exists_of_bind made
              obtain ⟨tokens, continued, same⟩ := Except.exists_of_bind made
              obtain rfl := Except.ok.inj same
              have inside : Regroups source body inner :=
                regroups_inside (.group .paren span body) _ inner done
              exact .expression inside (others tokens continued)
          | brace =>
              rw [interpolate] at made
              dsimp only at made
              split at made
              next => simp at made
              next all =>
                obtain ⟨tokens, continued, same⟩ := Except.exists_of_bind made
                obtain rfl := Except.ok.inj same
                refine .block ?_ (others tokens continued)
                have left : Regroups source (body.drop (variableRun none body).2) [] := by
                  rw [all]
                  exact .nil
                have names := regroups_variableRun .alone none body (.inl rfl) left
                rwa [List.append_nil] at names
          | bracket => simp [interpolate] at made

end

/-- The tokens of an accepted stream are its lexemes regrouped. -/
theorem regroups_of_stream {trees : List Tree} {tokens : List Token}
    (made : classify source stream (.start stream.start) 0 trees = .ok tokens) :
    Regroups source trees tokens :=
  regroups_classify trees stream _ 0 tokens made [] (.nothing rfl)

end Classifier

end ScopeLint.Token
