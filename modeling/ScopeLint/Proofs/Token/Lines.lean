import ScopeLint.Proofs.Token.Shift
import ScopeLint.Proofs.Tree.Lines

/-!
Classifying a text line by line. Nothing that the classifier knows reaches over a line break between
statements: runs of joined lexemes end there, the mode returns to commands, an at sign belongs to the
group directly behind it, and a class keyword is forgotten at the next group. Only a backtick, a pipe
or a plus sign takes the line break along.
-/

namespace ScopeLint.Token

open ScopeLint.Tree (extend EndsLine)

variable {source : Text} {progress : Progress} {rest trees later : List Tree} {feed : Tree}
  {feedSpan : Span} {feedSpacing spacing : Spacing}

theorem continuesName_withSpacing (spacing : Spacing) (tree : Tree) :
    continuesName (tree.withSpacing spacing) = continuesName tree := by
  cases tree <;> rfl

theorem continuesArgument_withSpacing (spacing : Spacing) (tree : Tree) :
    continuesArgument (tree.withSpacing spacing) = continuesArgument tree := by
  cases tree <;> rfl

/-- A run ends at what does not continue it, and so at a line break. -/
theorem run_extend {continues : Tree → Bool}
    (same : ∀ spacing tree, continues (tree.withSpacing spacing) = continues tree)
    (stops : continues feed = false) (span : Span) {first second : Spacing}
    (agree : rest ≠ [] → second = first) :
    run continues span second (extend spacing rest (feed :: later)) = run continues span first rest := by
  induction rest generalizing span first second with
  | nil => simp [extend, run, stops]
  | cons tree rest induction =>
      obtain rfl := agree (List.cons_ne_nil _ _)
      obtain ⟨other, spaced⟩ := Tree.exists_spaced spacing rest tree
      have continued : continues (tree.spaced spacing rest) = continues tree := by
        rw [spaced, same]
      have later := induction (span.through tree.span)
        (fun more => congrArg Tree.spacing (Tree.spaced_of_ne_nil more spacing tree))
      simp only [extend, run, continued, Tree.span_spaced, later]

def lineFeed (span : Span) (spacing : Spacing) : Tree := .symbol '\n' span spacing

/-- The names of a variable end at a line break. A colon at the end of the line is left over by the
stream alone, and taken along once it touches the line break. -/
theorem variableRun_extend (sign : Option Span) (trees : List Tree)
    (alone : ∀ last ∈ trees.getLast?, last.spacing = .alone) :
    variableRun sign (extend spacing trees (lineFeed feedSpan feedSpacing :: later)) =
        variableRun sign trees ∨
      ∃ colon touching, trees.drop (variableRun sign trees).2 = [.symbol ':' colon touching] ∧
        variableRun sign (extend spacing trees (lineFeed feedSpan feedSpacing :: later)) =
          ((variableRun sign trees).1 ++ [.symbol ':' colon], trees.length) := by
  induction sign, trees using variableRun.induct with
  | case1 sign name colon rest tokens count run induction =>
      have more : rest ≠ [] := by
        rintro rfl
        exact absurd (alone _ rfl) (by simp [Tree.spacing])
      have aloneRest : ∀ last ∈ rest.getLast?, last.spacing = .alone := by
        intro last final
        apply alone
        rw [List.getLast?_cons_cons, List.getLast?_cons, Option.mem_def.mp final]
        rfl
      rw [run] at induction
      simp only [extend, Tree.spaced_of_ne_nil more, Tree.spaced_of_ne_nil (List.cons_ne_nil _ _),
        variableRun, run]
      rcases induction aloneRest with same | ⟨last, touching, left, taken⟩
      · rw [same]
        exact .inl rfl
      · rw [taken]
        exact .inr ⟨last, touching, left, rfl⟩
  | case2 sign name after rest other =>
      rw [variableRun_single other]
      cases rest with
      | nil =>
          left
          apply variableRun_single
          intro colon more _ same
          simp [extend, lineFeed] at same
      | cons next more =>
          by_cases taken : after = .joined ∧ ∃ colon, next.spaced spacing more = .symbol ':' colon .joined
          · -- Only the last lexeme gets another spacing, so the colon is the last one.
            obtain ⟨rfl, colon, symbol⟩ := taken
            cases more with
            | cons third more =>
                rw [Tree.spaced_of_ne_nil (List.cons_ne_nil _ _)] at symbol
                exact absurd (by rw [symbol]) (other colon (third :: more) rfl)
            | nil =>
                right
                cases next with
                | symbol char span touching =>
                    obtain ⟨rfl, rfl, joined⟩ := Tree.symbol.inj symbol
                    refine ⟨span, touching, rfl, ?_⟩
                    simp only [extend, symbol, Tree.spaced_of_ne_nil (List.cons_ne_nil _ _)]
                    rfl
                | _ => cases symbol
          · left
            rw [extend, Tree.spaced_of_ne_nil (List.cons_ne_nil _ _)]
            apply variableRun_single
            intro colon others joined same
            exact taken ⟨joined, colon, (List.cons.inj same).1⟩
  | case3 trees sign other =>
      left
      cases trees with
      | nil => rfl
      | cons tree rest =>
          obtain ⟨spacing, same⟩ := Tree.exists_spaced spacing rest tree
          rw [extend, same]
          cases tree with
          | word name spacing => exact absurd rfl (other name spacing rest)
          | _ => rfl

theorem nextIsSymbol_extend (char : Char) {next : Tree} :
    nextIsSymbol char (extend spacing (next :: rest) later) = nextIsSymbol char (next :: rest) := by
  obtain ⟨other, same⟩ := Tree.exists_spaced spacing rest next
  rw [extend, same]
  cases next <;> rfl

theorem nextWord_extend {next : Tree} :
    nextWord? (extend spacing (next :: rest) later) = nextWord? (next :: rest) := by
  obtain ⟨other, same⟩ := Tree.exists_spaced spacing rest next
  rw [extend, same]
  cases next <;> rfl

theorem nextColon_extend {next : Tree} :
    nextColon? (extend spacing (next :: rest) later) = nextColon? (next :: rest) := by
  obtain ⟨other, same⟩ := Tree.exists_spaced spacing rest next
  rw [extend, same]
  cases next with
  | symbol char span touching =>
      by_cases colon : char = ':'
      · subst colon
        rfl
      · simp [nextColon?, Tree.withSpacing, colon]
  | _ => rfl

theorem otherEffect_skip (stream : Stream) (mode : Mode) (char : Char) (span : Span)
    (touching : Spacing) (word colon : Option Span) :
    (otherEffect stream mode char span touching word colon).skip ≤ 1 := by
  unfold otherEffect
  dsimp only
  repeat' split
  all_goals simp

theorem otherEffect_none (stream : Stream) (mode : Mode) (char : Char) (span : Span)
    (first second : Spacing) :
    otherEffect stream mode char span first none none =
        otherEffect stream mode char span second none none ∧
      (otherEffect stream mode char span second none none).skip = 0 := by
  unfold otherEffect
  dsimp only
  split <;> simp

theorem ofSymbol_bare {stream : Stream} {mode : Mode} {char : Char} {span : Span}
    {touching : Spacing} (notTick : char ≠ '\x60') (notPipe : char ≠ '|') (notPlus : char ≠ '+')
    (word : nextWord? rest = none) (colon : nextColon? rest = none) :
    ofSymbol stream mode char span touching rest =
      if char = '\n' && stream.delimiter = .brace then .ok ⟨[.symbol ';' span], stream.start, 0⟩
      else .ok (otherEffect stream mode char span touching none none) := by
  rw [ofSymbol_eq, word, colon]
  simp [notTick, notPipe, notPlus]

/-- What a symbol does in front of the rest of its line: it does the same when more lines follow, or
it begins a variable that takes along a colon at the end of the line. -/
theorem ofSymbol_extend {mode : Mode} {char : Char} {span : Span} {first second : Spacing}
    {effect : Effect} (alone : ∀ last ∈ rest.getLast?, last.spacing = .alone)
    (ends : rest = [] → EndsLine [.symbol char span first]) (agree : rest ≠ [] → second = first)
    (made : ofSymbol .file mode char span first rest = .ok effect) :
    ofSymbol .file mode char span second
          (extend spacing rest (lineFeed feedSpan feedSpacing :: later)) = .ok effect ∧
        effect.skip ≤ rest.length ∨
      ∃ colon touching, rest.drop effect.skip = [.symbol ':' colon touching] ∧
        ofSymbol .file mode char span second
            (extend spacing rest (lineFeed feedSpan feedSpacing :: later)) =
          .ok ⟨effect.tokens ++ [.symbol ':' colon], effect.mode, rest.length⟩ := by
  cases rest with
  | nil =>
      left
      obtain ⟨-, tick, pipe, plus⟩ := ends rfl _ rfl
      have notTick : char ≠ '\x60' := of_decide_eq_false tick
      have notPipe : char ≠ '|' := of_decide_eq_false pipe
      have notPlus : char ≠ '+' := of_decide_eq_false plus
      obtain ⟨same, skip⟩ := otherEffect_none .file mode char span first second
      rw [ofSymbol_bare notTick notPipe notPlus rfl rfl, same] at made
      rw [extend, ofSymbol_bare notTick notPipe notPlus rfl rfl]
      refine ⟨made, ?_⟩
      split at made
      next =>
        obtain rfl := Except.ok.inj made
        exact Nat.le_refl _
      next =>
        obtain rfl := Except.ok.inj made
        exact Nat.le_of_eq skip
  | cons next rest =>
      obtain rfl := agree (List.cons_ne_nil _ _)
      rw [ofSymbol_eq] at made ⊢
      rw [nextIsSymbol_extend, nextWord_extend, nextColon_extend]
      split at made
      next tick =>
        left
        rw [if_pos tick]
        refine ⟨made, ?_⟩
        split at made
        next =>
          obtain rfl := Except.ok.inj made
          exact Nat.succ_le_succ (Nat.zero_le _)
        next => cases made
      next noTick =>
        rw [if_neg noTick]
        split at made
        next newline =>
          left
          rw [if_pos newline]
          obtain rfl := Except.ok.inj made
          exact ⟨rfl, Nat.zero_le _⟩
        next inLine =>
          rw [if_neg inLine]
          split at made
          next operator =>
            left
            rw [if_pos operator]
            obtain rfl := Except.ok.inj made
            refine ⟨rfl, ?_⟩
            dsimp only
            split
            next => exact Nat.succ_le_succ (Nat.zero_le _)
            next => exact Nat.zero_le _
          next noOperator =>
            rw [if_neg noOperator]
            split at made
            next dollar =>
              rw [if_pos dollar]
              obtain rfl := Except.ok.inj made
              rcases variableRun_extend (some span) (next :: rest) alone with
                same | ⟨colon, touching, left, taken⟩
              · rw [same]
                exact .inl ⟨rfl, variableRun_le _ _⟩
              · rw [taken]
                exact .inr ⟨colon, touching, left, rfl⟩
            next noDollar =>
              left
              rw [if_neg noDollar]
              obtain rfl := Except.ok.inj made
              refine ⟨rfl, Nat.le_trans (otherEffect_skip _ _ _ _ _ _ _) ?_⟩
              exact Nat.succ_le_succ (Nat.zero_le _)

theorem marksGroup_extend (char : Char) (span : Span) (rest : List Tree) :
    marksGroup char span (extend spacing rest (lineFeed feedSpan feedSpacing :: later)) =
      marksGroup char span rest := by
  cases rest with
  | nil => rfl
  | cons next rest =>
      obtain ⟨other, same⟩ := Tree.exists_spaced spacing rest next
      rw [extend, same]
      cases next <;> rfl

theorem moveWord_extend {span : Span} {first second : Spacing} (agree : rest ≠ [] → second = first) :
    moveWord source progress span second
        (extend spacing rest (lineFeed feedSpan feedSpacing :: later)) =
      moveWord source progress span first rest := by
  have command : commandRun span second
      (extend spacing rest (lineFeed feedSpan feedSpacing :: later)) = commandRun span first rest := by
    rw [commandRun_eq, commandRun_eq]
    exact run_extend continuesName_withSpacing rfl span agree
  have argument : argumentRun span second
      (extend spacing rest (lineFeed feedSpan feedSpacing :: later)) = argumentRun span first rest := by
    rw [argumentRun_eq, argumentRun_eq]
    exact run_extend continuesArgument_withSpacing rfl span agree
  simp only [moveWord, command, argument]

theorem moveWord_skip (span : Span) (touching : Spacing) (rest : List Tree) :
    (moveWord source progress span touching rest).skip ≤ rest.length := by
  unfold moveWord
  split
  · exact Nat.zero_le _
  · exact Nat.zero_le _
  · dsimp only
    rw [commandRun_eq]
    exact run_le _ _ _ _
  · split
    · exact Nat.zero_le _
    · dsimp only
      rw [argumentRun_eq]
      exact run_le _ _ _ _

/-- What becomes of a move when more lines follow: it stays, or it takes along a colon at the end of
the line, which would have been a move of its own. -/
def Carries (rest : List Tree) (made : Move) (moved : Except SyntaxError Move) : Prop :=
  moved = .ok made ∧ made.skip ≤ rest.length ∨
    ∃ colon touching, rest.drop made.skip = [.symbol ':' colon touching] ∧
      moved = .ok ⟨made.tokens ++ [.symbol ':' colon], made.progress, rest.length⟩

theorem move_extend {tree : Tree} {made : Move}
    (alone : ∀ last ∈ rest.getLast?, last.spacing = .alone) (ends : rest = [] → EndsLine [tree])
    (moved : move source .file progress tree rest = .ok made) :
    Carries rest made (move source .file progress (tree.spaced spacing rest)
      (extend spacing rest (lineFeed feedSpan feedSpacing :: later))) := by
  obtain ⟨other, same⟩ := Tree.exists_spaced spacing rest tree
  have agree (more : rest ≠ []) : tree.withSpacing other = tree := by
    rw [← same, Tree.spaced_of_ne_nil more]
  rw [same]
  cases tree with
  | word span first =>
      obtain rfl := Except.ok.inj moved
      refine .inl ⟨congrArg Except.ok (moveWord_extend ?_), moveWord_skip span first rest⟩
      exact fun more => (Tree.word.inj (agree more)).2
  | symbol char span first =>
      simp only [move, moveSymbol, Tree.withSpacing, marksGroup_extend] at moved ⊢
      split at moved
      next marks =>
        obtain rfl := Except.ok.inj moved
        rw [if_pos marks]
        exact .inl ⟨rfl, Nat.zero_le _⟩
      next plain =>
        obtain ⟨effect, done, made⟩ := Except.exists_of_bind moved
        obtain rfl := Except.ok.inj made
        rw [if_neg plain]
        rcases ofSymbol_extend alone ends (fun more => (Tree.symbol.inj (agree more)).2.2) done with
          ⟨kept, short⟩ | ⟨colon, touching, left, taken⟩
        · rw [kept]
          exact .inl ⟨rfl, short⟩
        · rw [taken]
          exact .inr ⟨colon, touching, left, rfl⟩
  | number span =>
      obtain rfl := Except.ok.inj moved
      exact .inl ⟨rfl, Nat.zero_le _⟩
  | string span parts =>
      refine .inl ⟨moved, ?_⟩
      obtain ⟨tokens, -, made⟩ := Except.exists_of_bind moved
      obtain rfl := Except.ok.inj made
      exact Nat.zero_le _
  | group delimiter span body =>
      refine .inl ⟨moved, ?_⟩
      obtain ⟨tokens, -, made⟩ := Except.exists_of_bind moved
      obtain rfl := Except.ok.inj made
      exact Nat.zero_le _

/-- An at sign is held back only in front of the group that it belongs to. -/
def Pending (progress : Progress) (skip : Nat) (trees : List Tree) : Prop :=
  progress.atSign.isSome = true → skip = 0 ∧
    ∃ delimiter span body rest, trees = .group delimiter span body :: rest

theorem Pending.unsigned {skip : Nat} (pending : Pending progress skip trees)
    (plain : ∀ next ∈ (trees.drop skip).head?, next.kind ≠ .group) :
    progress.atSign = none := by
  rw [← Option.not_isSome_iff_eq_none]
  intro sign
  obtain ⟨rfl, delimiter, span, body, rest, same⟩ := pending sign
  exact plain (.group delimiter span body) (by simp [same]) rfl

theorem exists_of_marksGroup {char : Char} {span : Span} (marks : marksGroup char span rest = true) :
    ∃ delimiter span body later, rest = .group delimiter span body :: later := by
  unfold marksGroup at marks
  split at marks
  next delimiter span body later => exact ⟨delimiter, span, body, later, rfl⟩
  next => cases marks

theorem atSign_moveWord (span : Span) (touching : Spacing) (rest : List Tree) :
    (moveWord source progress span touching rest).progress.atSign = progress.atSign := by
  unfold moveWord
  split
  · rfl
  · rfl
  · dsimp only
    unfold Progress.afterCommand
    split <;> rfl
  · split <;> rfl

theorem pending_move {stream : Stream} {tree : Tree} {made : Move}
    (pending : Pending progress 0 (tree :: rest))
    (moved : move source stream progress tree rest = .ok made) :
    Pending made.progress made.skip rest := by
  -- An at sign held back in front of anything but a group would have been held back for nothing.
  have settled (plain : tree.kind ≠ .group)
      (kept : made.progress.atSign = progress.atSign) : Pending made.progress made.skip rest := by
    intro sign
    rw [kept] at sign
    obtain ⟨-, delimiter, span, body, others, same⟩ := pending sign
    exact absurd (congrArg Tree.kind (List.cons.inj same).1) plain
  cases tree with
  | word span touching =>
      obtain rfl := Except.ok.inj moved
      exact settled (by simp [Tree.kind]) (atSign_moveWord span touching rest)
  | symbol char span touching =>
      simp only [move, moveSymbol] at moved
      split at moved
      next marks =>
        obtain rfl := Except.ok.inj moved
        exact fun _ => ⟨rfl, exists_of_marksGroup marks⟩
      next =>
        obtain ⟨effect, -, same⟩ := Except.exists_of_bind moved
        obtain rfl := Except.ok.inj same
        exact settled (by simp [Tree.kind]) rfl
  | number span =>
      obtain rfl := Except.ok.inj moved
      exact settled (by simp [Tree.kind]) rfl
  | string span parts =>
      obtain ⟨tokens, -, same⟩ := Except.exists_of_bind moved
      obtain rfl := Except.ok.inj same
      exact settled (by simp [Tree.kind]) rfl
  | group delimiter span body =>
      obtain ⟨tokens, -, same⟩ := Except.exists_of_bind moved
      obtain rfl := Except.ok.inj same
      exact fun sign => absurd sign Bool.false_ne_true

/-- A class keyword is remembered behind a move only if the move gives the keyword, or if it was
remembered before and the move gives no group. -/
def Remembers (progress : Progress) (made : Move) : Prop :=
  made.progress.afterClass = true →
    (∃ span, made.tokens = [.keyword .classWord span]) ∨
      progress.afterClass = true ∧ ∀ token ∈ made.tokens, token.kind ≠ .group

theorem Remembers.of_plain {made : Move}
    (same : made.progress.afterClass = progress.afterClass)
    (plain : ∀ token ∈ made.tokens, token.kind ≠ .group) : Remembers progress made := by
  intro after
  rw [same] at after
  exact .inr ⟨after, plain⟩

theorem kind_ofCommand (span : Span) : (ofCommand source span).kind ≠ .group := by
  unfold ofCommand
  dsimp only
  repeat' split
  all_goals exact nofun

theorem remembers_command {token : Token} (plain : token.kind ≠ .group) (skip : Nat) :
    Remembers progress ⟨[token], progress.afterCommand token, skip⟩ := by
  cases token with
  | keyword which span =>
      cases which with
      | classWord => exact fun _ => .inl ⟨span, rfl⟩
      | _ => exact .of_plain rfl (by simpa using plain)
  | _ => exact .of_plain rfl (by simpa using plain)

/-- A class keyword is remembered until the next group. -/
theorem remembers_move {stream : Stream} {tree : Tree} {made : Move}
    (moved : move source stream progress tree rest = .ok made) : Remembers progress made := by
  cases tree with
  | word span touching =>
      obtain rfl := Except.ok.inj moved
      simp only [moveWord]
      split
      · exact .of_plain rfl (by simp [kind])
      · exact .of_plain rfl (by simp [kind])
      · exact remembers_command (kind_ofCommand _) _
      · split
        · exact .of_plain rfl (by simp [kind])
        · exact .of_plain rfl (by simp [kind])
  | symbol char span touching =>
      simp only [move, moveSymbol] at moved
      split at moved
      next =>
        obtain rfl := Except.ok.inj moved
        exact .of_plain rfl (by simp)
      next =>
        obtain ⟨effect, done, same⟩ := Except.exists_of_bind moved
        obtain rfl := Except.ok.inj same
        apply Remembers.of_plain rfl
        intro token given
        exact ne_group_of_sign (kind_ofSymbol done token given)
  | number span =>
      obtain rfl := Except.ok.inj moved
      exact .of_plain rfl (by simp [kind])
  | string span parts =>
      obtain ⟨tokens, -, same⟩ := Except.exists_of_bind moved
      obtain rfl := Except.ok.inj same
      exact .of_plain rfl (by simp [kind])
  | group delimiter span body =>
      obtain ⟨tokens, -, same⟩ := Except.exists_of_bind moved
      obtain rfl := Except.ok.inj same
      exact fun after => absurd after Bool.false_ne_true

theorem classify_of_move {stream : Stream} {tree : Tree} {made : Move}
    (moved : move source stream progress tree rest = .ok made) :
    classify source stream progress 0 (tree :: rest) = (do
      let tokens ← classify source stream made.progress made.skip rest
      return made.tokens ++ tokens) := by
  rw [classify_cons, moved]
  rfl

theorem classify_lineFeed (sign : progress.atSign = none) (unclassed : progress.afterClass = false) :
    classify source .file progress 0 (lineFeed feedSpan feedSpacing :: later) = (do
      let others ← classify source .file (.start .function) 0 later
      return .symbol ';' feedSpan :: others) := by
  have unmarked : marksGroup '\n' feedSpan later = false := by
    unfold marksGroup
    split <;> simp
  have fresh : { progress with mode := .function } = Progress.start .function := by
    rw [sign, unclassed]
    rfl
  have moved : move source .file progress (lineFeed feedSpan feedSpacing) later =
      .ok ⟨[.symbol ';' feedSpan], .start .function, 0⟩ := by
    rw [← fresh]
    simp [lineFeed, move, moveSymbol, unmarked, ofSymbol, Stream.file]
  rw [classify_of_move moved]
  rfl

theorem classify_drop (stream : Stream) (skip : Nat) (trees : List Tree) :
    classify source stream progress skip trees =
      classify source stream progress 0 (trees.drop skip) := by
  induction trees generalizing skip with
  | nil => rw [List.drop_nil, classify_nil, classify_nil]
  | cons tree rest induction =>
      cases skip with
      | zero => rfl
      | succ skip =>
          rw [classify_skip, List.drop_succ_cons]
          exact induction skip

theorem classify_colon (colon : Span) (touching : Spacing) :
    classify source .file progress 0 [.symbol ':' colon touching] = .ok [.symbol ':' colon] := by
  rw [classify_cons]
  cases touching <;> rfl

theorem classify_skip_all (stream : Stream) (trees : List Tree) :
    classify source stream progress trees.length (extend spacing trees later) =
      classify source stream progress 0 later := by
  induction trees with
  | nil => rfl
  | cons tree rest induction =>
      rw [List.length_cons, extend, classify_skip]
      exact induction

def ClassesClosed (tokens : List Token) : Prop :=
  ∀ before span after, tokens = before ++ .keyword .classWord span :: after →
    ∃ token ∈ after, token.kind = .group

theorem ClassesClosed.append {front behind : List Token} (closed : ClassesClosed (front ++ behind)) :
    ClassesClosed behind := by
  intro before span after same
  refine closed (front ++ before) span after ?_
  rw [same, List.append_assoc]

theorem Remembers.behind {made : Move} {others : List Token} (remembers : Remembers progress made)
    (closed : ClassesClosed (made.tokens ++ others))
    (before : progress.afterClass = true → ∃ token ∈ made.tokens ++ others, token.kind = .group)
    (after : made.progress.afterClass = true) : ∃ token ∈ others, token.kind = .group := by
  rcases remembers after with ⟨span, same⟩ | ⟨already, plain⟩
  · rw [same] at closed
    exact closed [] span others rfl
  · obtain ⟨token, inside, group⟩ := before already
    rcases List.mem_append.mp inside with own | other
    · exact absurd group (plain token own)
    · exact ⟨token, other, group⟩

/-- Classifying a stream, a line break and what follows: the tokens of the stream, a separator, and
what follows as if it were alone. -/
theorem classify_extend (trees : List Tree) (progress : Progress) (skip : Nat) (tokens : List Token)
    (short : skip ≤ trees.length) (pending : Pending progress skip trees) (ends : EndsLine trees)
    (closed : ClassesClosed tokens)
    (remembered : progress.afterClass = true → ∃ token ∈ tokens, token.kind = .group)
    (made : classify source .file progress skip trees = .ok tokens) :
    classify source .file progress skip
        (extend spacing trees (lineFeed feedSpan feedSpacing :: later)) = (do
      let others ← classify source .file (.start .function) 0 later
      return tokens ++ .symbol ';' feedSpan :: others) := by
  induction trees generalizing progress skip tokens with
  | nil =>
      obtain rfl := Nat.le_zero.mp short
      rw [classify_nil] at made
      obtain rfl := Except.ok.inj made
      have unclassed : progress.afterClass = false := by
        rw [← Bool.not_eq_true]
        intro before
        obtain ⟨token, inside, -⟩ := remembered before
        cases inside
      exact classify_lineFeed (pending.unsigned (by simp)) unclassed
  | cons tree rest induction =>
      cases skip with
      | succ skip =>
          rw [classify_skip] at made
          rw [extend, classify_skip]
          refine induction progress skip tokens (Nat.le_of_succ_le_succ short) ?_ ends.tail closed
            remembered made
          exact fun sign => absurd (pending sign).1 (Nat.succ_ne_zero skip)
      | zero =>
          rw [classify_cons] at made
          obtain ⟨move, moved, made⟩ := Except.exists_of_bind made
          obtain ⟨others, done, made⟩ := Except.exists_of_bind made
          obtain rfl := Except.ok.inj made
          have pendingRest := pending_move pending moved
          have rememberedRest := (remembers_move moved).behind closed remembered
          rw [extend]
          have aloneRest : ∀ last ∈ rest.getLast?, last.spacing = .alone :=
            fun last final => (ends.tail last final).1
          have endsHere : rest = [] → EndsLine [tree] := by
            rintro rfl
            exact ends
          rcases move_extend aloneRest endsHere moved with
            ⟨same, shortRest⟩ | ⟨colon, touching, left, taken⟩
          · have next := induction move.progress move.skip others shortRest pendingRest ends.tail
              closed.append rememberedRest done
            rw [classify_of_move same, next]
            simp only [bind_assoc, pure_bind, List.append_assoc]
          · -- The colon at the end of the line is a move of its own if nothing follows.
            rw [classify_drop, left] at done
            have single : others = [.symbol ':' colon] := by
              rw [classify_colon] at done
              exact (Except.ok.inj done).symm
            subst single
            have unsigned : move.progress.atSign = none :=
              pendingRest.unsigned (by simp [left, Tree.kind])
            have unclassed : move.progress.afterClass = false := by
              rw [← Bool.not_eq_true]
              intro before
              obtain ⟨token, inside, group⟩ := rememberedRest before
              obtain rfl := List.mem_singleton.mp inside
              cases group
            rw [classify_of_move taken, classify_skip_all, classify_lineFeed unsigned unclassed]
            simp only [bind_assoc, pure_bind, List.append_assoc]

theorem ofTrees_within {offset : Offset} {outer : Text} (accepted : Tree.read source = .ok trees)
    (shown : Span.Shows offset source outer) :
    ofTrees outer (Tree.shiftAll offset trees) =
      relocate offset (shiftAll offset) (ofTrees source trees) :=
  classify_shift shown trees (Tree.within_of_read accepted) .file (.start .function) 0

theorem ofTrees_front {front : Text} {tokens : List Token} (lexed : Tree.read front = .ok trees)
    (accepted : ofTrees front trees = .ok tokens) (behind : Text) :
    ofTrees (front ++ behind) trees = .ok tokens := by
  have shown : Span.Shows .zero front (front ++ behind) := Span.shows_append [] front behind rfl
  have same := ofTrees_within lexed shown
  rw [Tree.shiftAll_zero, accepted, relocate, shiftAll_zero] at same
  exact same

theorem shows_behind (front behind : Text) :
    Span.Shows front.lineOffset behind (front ++ Text.lineFeed :: behind) := by
  have width : front.lineOffset.bytes = (front ++ [Text.lineFeed]).length := by
    simp [Text.lineOffset]
  have shown := Span.shows_append (front ++ [Text.lineFeed]) behind [] width
  rw [List.append_nil, List.append_assoc] at shown
  exact shown

theorem ofTrees_behind {front behind : Text} (lexed : Tree.read behind = .ok trees) :
    ofTrees (front ++ Text.lineFeed :: behind) (Tree.shiftAll front.lineOffset trees) =
      relocate front.lineOffset (shiftAll front.lineOffset) (ofTrees behind trees) :=
  ofTrees_within lexed (shows_behind front behind)

/-- Joining a line to what follows its line break changes only the spacing of its last lexeme. -/
theorem exists_joined (linked : Tree.Linked trees) (front : Text) (later : List Tree) :
    ∃ spacing feedSpacing, Tree.join trees ((Tree.lineBreak front).link later) =
      extend spacing trees (lineFeed front.lineEnd.span feedSpacing :: later) := by
  obtain ⟨feedSpacing, feed, -⟩ := Tree.exists_link (Tree.lineBreak front) later
  obtain ⟨spacing, joined⟩ := Tree.exists_extend linked ((Tree.lineBreak front).link later)
  refine ⟨spacing, feedSpacing, ?_⟩
  rw [joined, feed]
  rfl

theorem read_line {front : Text} {tokens : List Token} (accepted : read front = .ok tokens)
    (ends : ∀ trees, Tree.read front = .ok trees → ∀ last ∈ trees.getLast?,
      last.isSymbol '\x60' = false ∧ last.isSymbol '|' = false ∧ last.isSymbol '+' = false)
    (closed : ClassesClosed tokens) (behind : Text) :
    read (front ++ Text.lineFeed :: behind) =
      relocate front.lineOffset
        (fun later => tokens ++ .symbol ';' front.lineEnd.span :: shiftAll front.lineOffset later)
        (read behind) := by
  obtain ⟨trees, lexed, made⟩ := Except.exists_of_bind accepted
  obtain ⟨linked, line⟩ := Tree.read_line lexed behind
  have endsLine : EndsLine trees :=
    fun last final => ⟨linked.last_alone last final, ends trees lexed last final⟩
  apply relocate_bind line
  intro later lexedLater
  obtain ⟨spacing, feedSpacing, joined⟩ :=
    exists_joined linked front (Tree.shiftAll front.lineOffset later)
  rw [joined]
  change classify (front ++ Text.lineFeed :: behind) .file (.start .function) 0
    (extend spacing trees (lineFeed front.lineEnd.span feedSpacing ::
      Tree.shiftAll front.lineOffset later)) = _
  rw [classify_extend trees (.start .function) 0 tokens (Nat.zero_le _) nofun endsLine closed nofun
      (ofTrees_front lexed made (Text.lineFeed :: behind)),
    ← bind_pure (ofTrees behind later)]
  apply relocate_bind (ofTrees_behind lexedLater)
  intro others _
  rfl

/-- Reading is compositional by line. When a text is accepted, its last lexeme takes no line break
along and no class keyword waits for its group, then a line break and another text behind it give a
separator and the outcome for that text alone, moved down. -/
theorem read_lines (front behind : Text) (tokens : List Token) (accepted : read front = .ok tokens)
    (ends : ∀ trees, Tree.read front = .ok trees → ∀ last ∈ trees.getLast?,
      last.isSymbol '\x60' = false ∧ last.isSymbol '|' = false ∧ last.isSymbol '+' = false)
    (closed : ClassesClosed tokens) :
    ((∃ all, read (front ++ Text.lineFeed :: behind) = .ok all) ↔ ∃ later, read behind = .ok later) ∧
      (∀ later, read behind = .ok later →
        read (front ++ Text.lineFeed :: behind) =
          .ok (tokens ++ .symbol ';' front.lineEnd.span :: shiftAll front.lineOffset later)) ∧
      ∀ error, read behind = .error error →
        read (front ++ Text.lineFeed :: behind) = .error (error.shift front.lineOffset) := by
  rw [read_line accepted ends closed behind]
  cases read behind with
  | ok later =>
      refine ⟨⟨fun _ => ⟨later, rfl⟩, fun _ => ⟨_, rfl⟩⟩, ?_, nofun⟩
      rintro _ ⟨rfl⟩
      rfl
  | error error =>
      refine ⟨⟨?_, nofun⟩, nofun, ?_⟩
      · rintro ⟨all, accepted⟩
        cases accepted
      · rintro _ ⟨rfl⟩
        rfl

/-- A class, and a carriage return that belongs to the line break behind it. -/
def classLine : Text := "class A\x7b \x7d\r"

def classLineTokens : List Token :=
  [.keyword .classWord ⟨⟨0, 1, 1⟩, ⟨5, 1, 6⟩⟩, .field ⟨⟨6, 1, 7⟩, ⟨7, 1, 8⟩⟩,
    .group .brace none ⟨⟨7, 1, 8⟩, ⟨10, 1, 11⟩⟩ []]

theorem classLine_read_lines :
    read "class A\x7b \x7d\r\nIt \"$b\"" = .ok (classLineTokens ++
      [.symbol ';' ⟨⟨10, 1, 11⟩, ⟨12, 2, 1⟩⟩, .cmdlet ⟨⟨12, 2, 1⟩, ⟨14, 2, 3⟩⟩,
        .string ⟨⟨15, 2, 4⟩, ⟨19, 2, 8⟩⟩
          [.variable ⟨⟨17, 2, 6⟩, ⟨18, 2, 7⟩⟩ ⟨⟨17, 2, 6⟩, ⟨18, 2, 7⟩⟩]]) ∧
      read "class A\x7b \x7d\r\nIt \x60x" = .error ⟨.unknownEscape, ⟨15, 2, 4⟩⟩ := by
  have accepted : read classLine = .ok classLineTokens := rfl
  have ends : ∀ trees, Tree.read classLine = .ok trees → ∀ last ∈ trees.getLast?,
      last.isSymbol '\x60' = false ∧ last.isSymbol '|' = false ∧ last.isSymbol '+' = false := by
    rintro _ ⟨rfl⟩ last final
    obtain rfl := Option.some.inj final
    exact ⟨rfl, rfl, rfl⟩
  have closed : ClassesClosed classLineTokens := by
    intro before span after same
    obtain _ | ⟨first, _ | ⟨second, _ | ⟨third, more⟩⟩⟩ := before
    · obtain ⟨-, rfl⟩ := List.cons.inj same
      exact ⟨_, List.mem_cons_of_mem _ (List.mem_singleton_self _), rfl⟩
    all_goals simp [classLineTokens] at same
  have lines (behind : Text) := read_lines classLine behind classLineTokens accepted ends closed
  exact ⟨(lines "It \"$b\"").2.1 _ rfl, (lines "It \x60x").2.2 _ rfl⟩

end ScopeLint.Token
