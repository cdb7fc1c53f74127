import ScopeLint.Proofs.Token.Acceptance
import ScopeLint.Proofs.Token.ClassBodies

/-!
Increments at the end of a line. A plus sign with a token of its own takes the line break behind it
along, so that a sum may go on in the next line. The second sign of an increment does the same: the
next line is read in the mode that the increment leaves behind, with no separator before it, and its
first word is a command only if one was expected anyway. The statement ends with the line only if a
command name or bare text has taken both signs along.
-/

namespace ScopeLint.Token

open ScopeLint.Tree (extend)

section Places

variable {source : Text} {stream : Stream} {trees left : List Tree} {tokens given behind : List Token}
  {progress : Progress}

theorem Reaches.reads (place : Reaches source stream trees given progress left)
    (continued : classify source stream progress 0 left = .ok behind) :
    ReadsAs source stream trees (given ++ behind) := by
  induction place generalizing behind with
  | start => exact continued
  | next _ moved induction =>
      rw [List.append_assoc]
      apply induction
      rw [classify_of_move moved, classify_drop, continued]
      rfl

theorem Reaches.all_given (place : Reaches source stream trees given progress [])
    (reads : ReadsAs source stream trees tokens) : tokens = given := by
  obtain ⟨behind, ended, same⟩ := place.behind reads
  rw [classify_nil] at ended
  rw [same, ← Except.ok.inj ended, List.append_nil]

theorem Reaches.pending (place : Reaches source stream trees given progress left) :
    Pending progress 0 left := by
  induction place with
  | start => exact nofun
  | next _ moved induction =>
      intro sign
      obtain ⟨skip, group⟩ := pending_move induction moved sign
      rw [skip, List.drop_zero]
      exact ⟨rfl, group⟩

theorem ClassesClosed.not_awaitsBody (closed : ClassesClosed tokens) : ¬ AwaitsBody tokens := by
  rintro ⟨earlier, span, header, same, waits⟩
  obtain ⟨token, member, group⟩ := closed earlier span header same
  exact waits token member group

theorem Reaches.settled (place : Reaches source stream trees tokens progress [])
    (closed : ClassesClosed tokens) : progress = ⟨progress.mode, false, none⟩ := by
  have unsigned : progress.atSign = none := place.pending.unsigned (by simp)
  have unclassed : progress.afterClass = false := by
    rw [← Bool.not_eq_true, place.afterClass_iff]
    exact closed.not_awaitsBody
  rw [← unsigned, ← unclassed]

theorem Progress.shift_zero (progress : Progress) : progress.shift .zero = progress := by
  have same : Span.shift .zero = id := funext Span.shift_zero
  rw [shift, same, Option.map_id, id]

theorem Move.shift_zero (made : Move) : made.shift .zero = made := by
  rw [shift, shiftAll_zero, Progress.shift_zero]

/-- A text that begins with another one shows the same to the lexemes of that one. -/
theorem move_in_front {front : Text} {tree : Tree} {rest : List Tree} {made : Move}
    (within : Tree.WithinAll front.length (tree :: rest))
    (moved : move front stream progress tree rest = .ok made) (behind : Text) :
    move (front ++ behind) stream progress tree rest = .ok made := by
  have shown : Span.Shows .zero front (front ++ behind) := Span.shows_append [] front behind rfl
  rw [Tree.WithinAll] at within
  have again : move (front ++ behind) stream (progress.shift .zero) (tree.shift .zero)
      (Tree.shiftAll .zero rest) = relocate .zero (Move.shift .zero) (.ok made) := by
    rw [← moved]
    exact move_shift shown within.1 within.2 (classifyInside_shift shown tree within.1)
  rwa [Progress.shift_zero, Tree.shift_zero, Tree.shiftAll_zero, relocate, Move.shift_zero] at again

theorem Reaches.in_front {front : Text} (place : Reaches front stream trees given progress left)
    (within : Tree.WithinAll front.length trees) (behind : Text) :
    Reaches (front ++ behind) stream trees given progress left := by
  induction place with
  | start => exact .start
  | next place moved induction =>
      exact induction.next (move_in_front (within.suffix place.suffix) moved behind)

end Places

section Signs

variable {source : Text} {stream : Stream} {progress : Progress} {tree : Tree}
  {trees rest after before : List Tree} {made : Move} {tokens : List Token}

theorem move_plus (span : Span) (spacing : Spacing) (rest : List Tree) :
    move source stream progress (.symbol '+' span spacing) rest =
      .ok ⟨[.symbol '+' span], progress, if nextIsSymbol '\n' rest then 1 else 0⟩ := by
  have unmarked : marksGroup '+' span rest = false := by
    unfold marksGroup
    split <;> simp
  simp only [move, moveSymbol, unmarked, ofSymbol_eq]
  rfl

theorem ofCommand_ne_symbol (span : Span) : (ofCommand source span).kind ≠ .symbol := by
  unfold ofCommand
  dsimp only
  repeat' split
  all_goals exact nofun

/-- Only command names and bare text take plus signs along, and both extend over every one of them
that they touch. -/
theorem Acts.takes_plus {span : Span} {spacing : Spacing}
    (acts : Acts source stream progress rest tree made)
    (member : .symbol '+' span spacing ∈ rest.take made.skip) :
    ∃ token continues name touching, made.tokens = [token] ∧ token.kind ≠ .symbol ∧
      made.skip = (run continues name touching rest).2 ∧
      ∀ span spacing, continues (.symbol '+' span spacing) = true := by
  cases acts with
  | @command name touching expected =>
      refine ⟨_, continuesName, name, touching, rfl, ofCommand_ne_symbol _, ?_, fun _ _ => rfl⟩
      rw [commandRun_eq]
  | @argument name touching expected bare =>
      refine ⟨_, continuesArgument, name, touching, rfl, nofun, ?_, fun _ _ => rfl⟩
      rw [argumentRun_eq]
  | symbol acts => exact absurd (acts.takes _ member) (by simp [trailsSymbol, Tree.isWord, Tree.isSymbol])
  | name | membership | mark | number | string | group => simp at member

/-- A run that takes a lexeme along goes on over what that lexeme touches. -/
theorem run_goes_on {continues : Tree → Bool} {next : Tree} (touches : tree.spacing = .joined)
    (continued : continues next = true) (between : List Tree) (span : Span) (spacing : Spacing)
    (short : between.length < (run continues span spacing (between ++ tree :: next :: after)).2) :
    between.length + 1 < (run continues span spacing (between ++ tree :: next :: after)).2 := by
  induction between generalizing span spacing with
  | nil =>
      rw [List.nil_append, run] at short ⊢
      split at short
      next taken =>
        rw [if_pos taken, run, if_pos (by simp [touches, continued])]
        simp
      next => simp at short
  | cons first more induction =>
      rw [List.cons_append, run] at short ⊢
      split at short
      next taken =>
        rw [if_pos taken]
        exact Nat.succ_lt_succ (induction _ _ (Nat.lt_of_succ_lt_succ short))
      next => simp at short

def increment (first second : Span) (spacing : Spacing) : List Tree :=
  [.symbol '+' first .joined, .symbol '+' second spacing]

/-- Where an increment at the end of a stream is read: at a place of its own, or along with the word
that it belongs to. -/
theorem increment_place {first second : Span} {spacing : Spacing}
    (split : trees = before ++ increment first second spacing)
    (reads : ReadsAs source stream trees tokens) :
    (∃ given progress,
        Reaches source stream trees given progress (increment first second spacing)) ∨
      ∃ given progress tree rest made token,
        Reaches source stream trees given progress (tree :: rest) ∧ rest ≠ [] ∧
          move source stream progress tree rest = .ok made ∧ made.tokens = [token] ∧
          token.kind ≠ .symbol ∧ rest.length ≤ made.skip := by
  rcases exists_place reads split with place | ⟨given, progress, head, taken, made, place, moved, short⟩
  · exact .inl place
  · right
    obtain ⟨token, continues, name, touching, alone, kind, skip, wide⟩ :=
      (acts_of_move moved).takes_plus (mem_take_of_length_lt short)
    rw [skip] at short
    have both := run_goes_on rfl (wide second spacing) taken name touching short
    refine ⟨given, progress, head, _, made, token, place, by simp, moved, alone, kind, ?_⟩
    rw [skip, List.length_append]
    exact both

end Signs

section Lines

variable {source : Text} {progress : Progress} {tree : Tree} {trees rest left later : List Tree}
  {made : Move} {given : List Token} {spacing feedSpacing : Spacing} {feedSpan : Span}

theorem extend_drop {count : Nat} (short : count ≤ rest.length) :
    (extend spacing rest later).drop count = extend spacing (rest.drop count) later := by
  induction rest generalizing count with
  | nil =>
      obtain rfl := Nat.le_zero.mp short
      rfl
  | cons tree rest induction =>
      cases count with
      | zero => rfl
      | succ count => exact induction (Nat.le_of_succ_le_succ short)

def EndsInPlus (trees : List Tree) : Prop :=
  ∃ span, trees.getLast? = some (.symbol '+' span .alone)

theorem EndsInPlus.suffix (ends : EndsInPlus trees) (part : left <:+ trees) (more : left ≠ []) :
    EndsInPlus left := by
  obtain ⟨earlier, rfl⟩ := part
  obtain ⟨span, last⟩ := ends
  rw [List.getLast?_append, List.getLast?_eq_some_getLast more, Option.some_or] at last
  exact ⟨span, (List.getLast?_eq_some_getLast more).trans last⟩

theorem EndsInPlus.ne_nil (ends : EndsInPlus trees) : trees ≠ [] := by
  rintro rfl
  obtain ⟨span, last⟩ := ends
  cases last

theorem move_in_line (ends : EndsInPlus rest)
    (moved : move source .file progress tree rest = .ok made) :
    move source .file progress tree
        (extend spacing rest (lineFeed feedSpan feedSpacing :: later)) = .ok made ∧
      made.skip ≤ rest.length := by
  have alone : ∀ last ∈ rest.getLast?, last.spacing = .alone := by
    obtain ⟨span, last⟩ := ends
    simp [last, Tree.spacing]
  rw [← Tree.spaced_of_ne_nil ends.ne_nil spacing tree]
  rcases move_extend alone (fun empty => absurd empty ends.ne_nil) moved with
    kept | ⟨colon, touching, left, -⟩
  · exact kept
  · -- What a variable might take along is a colon at the end of the line.
    have endsLeft := ends.suffix (List.drop_suffix made.skip rest) (by simp [left])
    rw [left] at endsLeft
    obtain ⟨span, last⟩ := endsLeft
    cases last

theorem Reaches.next_in_line
    (place : Reaches source .file (extend spacing trees (lineFeed feedSpan feedSpacing :: later)) given
      progress (extend spacing (tree :: rest) (lineFeed feedSpan feedSpacing :: later)))
    (ends : EndsInPlus rest) (moved : move source .file progress tree rest = .ok made) :
    Reaches source .file (extend spacing trees (lineFeed feedSpan feedSpacing :: later))
      (given ++ made.tokens) made.progress
      (extend spacing (rest.drop made.skip) (lineFeed feedSpan feedSpacing :: later)) := by
  obtain ⟨same, short⟩ := move_in_line ends moved
  rw [extend, Tree.spaced_of_ne_nil ends.ne_nil] at place
  rw [← extend_drop short]
  exact place.next same

theorem Reaches.in_line (place : Reaches source .file trees given progress left)
    (ends : EndsInPlus trees) (more : left ≠ []) (spacing feedSpacing : Spacing) (feedSpan : Span)
    (later : List Tree) :
    Reaches source .file (extend spacing trees (lineFeed feedSpan feedSpacing :: later)) given progress
      (extend spacing left (lineFeed feedSpan feedSpacing :: later)) := by
  induction place with
  | start => exact .start
  | @next given progress tree rest made place moved induction =>
      have moreRest : rest ≠ [] := by
        rintro rfl
        exact more List.drop_nil
      have part : rest <:+ trees := List.IsSuffix.trans (List.suffix_cons _ _) place.suffix
      exact (induction (List.cons_ne_nil _ _)).next_in_line (ends.suffix part moreRest) moved

end Lines

section Texts

variable {front behind : Text} {progress : Progress} {trees lexemes before : List Tree}
  {tokens given later : List Token} {first second : Span} {spacing : Spacing}

theorem exists_lines (lexed : Tree.read front = .ok trees)
    (lexedBehind : Tree.read behind = .ok lexemes) :
    ∃ spacing feedSpacing, Tree.read (front ++ Text.lineFeed :: behind) =
      .ok (extend spacing trees (lineFeed front.lineEnd.span feedSpacing ::
        Tree.shiftAll front.lineOffset lexemes)) := by
  obtain ⟨linked, line⟩ := Tree.read_line lexed behind
  obtain ⟨spacing, feedSpacing, joined⟩ :=
    exists_joined linked front (Tree.shiftAll front.lineOffset lexemes)
  refine ⟨spacing, feedSpacing, ?_⟩
  rw [line, lexedBehind, relocate, joined]

theorem read_of_place {source : Text} {left : List Tree} {others : List Token}
    (lexed : Tree.read source = .ok trees) (place : Reaches source .file trees given progress left)
    (continued : classify source .file progress 0 left = .ok others) :
    read source = .ok (given ++ others) := by
  rw [read, lexed]
  exact place.reads continued

theorem classify_behind {mode : Mode} {others : List Token}
    (lexedBehind : Tree.read behind = .ok lexemes)
    (done : classify behind .file ⟨mode, false, none⟩ 0 lexemes = .ok others) :
    classify (front ++ Text.lineFeed :: behind) .file ⟨mode, false, none⟩ 0
        (Tree.shiftAll front.lineOffset lexemes) = .ok (shiftAll front.lineOffset others) := by
  have moved := classify_shift (shows_behind front behind) lexemes
    (Tree.within_of_read lexedBehind) .file ⟨mode, false, none⟩ 0
  rw [done] at moved
  exact moved

/-- The line break ends the statement: a separator stands for it, and the text behind it is read as
if it were alone. -/
def EndsStatement (front behind : Text) (tokens later : List Token) : Prop :=
  read (front ++ Text.lineFeed :: behind) =
    .ok (tokens ++ .symbol ';' front.lineEnd.span :: shiftAll front.lineOffset later)

/-- The line break vanishes, and the text behind it is read in the mode that the line leaves behind.
That gives the same tokens if commands are expected; if not, a word that comes first is no command. -/
def RunsOn (front behind : Text) (trees : List Tree) (tokens later : List Token) : Prop :=
  ∃ mode lexemes others, Reaches front .file trees tokens ⟨mode, false, none⟩ [] ∧
    Tree.read behind = .ok lexemes ∧
    classify behind .file ⟨mode, false, none⟩ 0 lexemes = .ok others ∧
    read (front ++ Text.lineFeed :: behind) =
      .ok (tokens ++ shiftAll front.lineOffset others) ∧
    (mode = .function → others = later) ∧
    (mode ≠ .function → ∀ name touching more, lexemes = .word name touching :: more →
      ∃ token, others.head? = some token ∧ token.kind ≠ .cmdlet)

theorem head_of_no_command {source : Text} {stream : Stream} {name : Span} {touching : Spacing}
    {more : List Tree} {others : List Token} (unexpected : progress.mode ≠ .function)
    (done : classify source stream progress 0 (.word name touching :: more) = .ok others) :
    ∃ token, others.head? = some token ∧ token.kind ≠ .cmdlet := by
  rw [classify_cons] at done
  obtain ⟨made, moved, continued⟩ := Except.exists_of_bind done
  obtain ⟨behind, -, same⟩ := Except.exists_of_bind continued
  rw [← Except.ok.inj same]
  cases acts_of_move moved with
  | command expected => exact absurd expected unexpected
  | name | membership | argument => exact ⟨_, rfl, nofun⟩

theorem endsInPlus_of_increment (split : trees = before ++ increment first second .alone) :
    EndsInPlus trees := by
  rw [split, increment]
  exact ⟨second, by simp⟩

section Ends

variable (lexed : Tree.read front = .ok trees) (reads : ReadsAs front .file trees tokens)
  (closed : ClassesClosed tokens) (acceptedBehind : read behind = .ok later)
  (split : trees = before ++ increment first second .alone)

include lexed reads closed acceptedBehind split

theorem runsOn_of_place
    (place : Reaches front .file trees given progress (increment first second .alone)) :
    tokens = given ++ [.symbol '+' first, .symbol '+' second] ∧
      RunsOn front behind trees tokens later := by
  have one : Reaches front .file trees (given ++ [.symbol '+' first]) progress
      [.symbol '+' second .alone] := place.next (move_plus _ _ _)
  have both : Reaches front .file trees (given ++ [.symbol '+' first] ++ [.symbol '+' second]) progress
      [] := one.next (move_plus _ _ _)
  have all := both.all_given reads
  rw [← all] at both
  have settled := both.settled closed
  obtain ⟨lexemes, lexedBehind, madeBehind⟩ := Except.exists_of_bind acceptedBehind
  obtain ⟨others, done⟩ := classify_accepts lexemes .file .file (.start .function)
    ⟨progress.mode, false, none⟩ 0 0 (by simp) ⟨later, madeBehind⟩
  obtain ⟨spacing, feedSpacing, lexedLines⟩ := exists_lines lexed lexedBehind
  -- In front of the next line the second sign skips the line break.
  have inLines := (one.in_front (Tree.within_of_read lexed) (Text.lineFeed :: behind)).in_line
    (endsInPlus_of_increment split) (List.cons_ne_nil _ _) spacing feedSpacing front.lineEnd.span
    (Tree.shiftAll front.lineOffset lexemes)
  have skipped := inLines.next (move_plus _ _ _)
  rw [settled] at both skipped
  refine ⟨by rw [all]; simp, progress.mode, lexemes, others, both, lexedBehind, done, ?_, ?_, ?_⟩
  · rw [all]
    exact read_of_place lexedLines skipped (classify_behind lexedBehind done)
  · intro expected
    rw [expected] at done
    exact Except.ok.inj (done.symm.trans madeBehind)
  · rintro unexpected name touching more rfl
    have leaves : Progress.mode ⟨progress.mode, false, none⟩ ≠ .function := unexpected
    exact head_of_no_command leaves done

theorem endsStatement_of_place {tree : Tree} {rest : List Tree} {made : Move} {token : Token}
    (place : Reaches front .file trees given progress (tree :: rest)) (more : rest ≠ [])
    (moved : move front .file progress tree rest = .ok made) (alone : made.tokens = [token])
    (taken : rest.length ≤ made.skip) :
    tokens = given ++ [token] ∧ EndsStatement front behind tokens later := by
  have last : Reaches front .file trees (given ++ [token]) made.progress [] := by
    rw [← alone, ← List.drop_of_length_le taken]
    exact place.next moved
  have all := last.all_given reads
  rw [← all] at last
  have settled := last.settled closed
  obtain ⟨lexemes, lexedBehind, madeBehind⟩ := Except.exists_of_bind acceptedBehind
  obtain ⟨spacing, feedSpacing, lexedLines⟩ := exists_lines lexed lexedBehind
  have within := Tree.within_of_read lexed
  have ends := endsInPlus_of_increment split
  have inLines := (place.in_front within (Text.lineFeed :: behind)).in_line ends
    (List.cons_ne_nil _ _) spacing feedSpacing front.lineEnd.span
    (Tree.shiftAll front.lineOffset lexemes)
  have movedLines := move_in_front (within.suffix place.suffix) moved (Text.lineFeed :: behind)
  have part : rest <:+ trees := List.IsSuffix.trans (List.suffix_cons _ _) place.suffix
  have atBreak := inLines.next_in_line (ends.suffix part more) movedLines
  rw [alone, ← all, List.drop_of_length_le taken, settled] at atBreak
  refine ⟨all, read_of_place lexedLines atBreak ?_⟩
  rw [extend, classify_lineFeed rfl rfl, Progress.start, classify_behind lexedBehind madeBehind]
  rfl

end Ends

/-- Increments at the end of a line. A text is accepted, its last two lexemes are plus signs that
touch, no class keyword waits for its body, and another text is accepted too. With a line break
between them, either the signs belong to the last word of the line and the line break ends the
statement; or the signs are the last two tokens, and the line break vanishes. -/
theorem increments_at_line_ends (accepted : read front = .ok tokens)
    (lexed : Tree.read front = .ok trees)
    (split : trees = before ++ [.symbol '+' first .joined, .symbol '+' second spacing])
    (closed : ClassesClosed tokens) (acceptedBehind : read behind = .ok later) :
    (∃ given token, tokens = given ++ [token] ∧ token.kind ≠ .symbol ∧
        EndsStatement front behind tokens later) ∨
      ∃ given, tokens = given ++ [.symbol '+' first, .symbol '+' second] ∧
        RunsOn front behind trees tokens later := by
  have reads : ReadsAs front .file trees tokens := by
    rw [read, lexed] at accepted
    exact accepted
  obtain rfl : spacing = .alone := by
    have linked := (Tree.read_line lexed behind).1
    exact linked.last_alone (.symbol '+' second spacing) (by rw [split]; simp)
  rcases increment_place split reads with
    ⟨given, progress, place⟩ | ⟨given, progress, tree, rest, made, token, place, more, moved, alone,
      kind, taken⟩
  · obtain ⟨all, runs⟩ := runsOn_of_place lexed reads closed acceptedBehind split place
    exact .inr ⟨given, all, runs⟩
  · obtain ⟨all, ends⟩ :=
      endsStatement_of_place lexed reads closed acceptedBehind split place more moved alone taken
    exact .inl ⟨given, token, all, kind, ends⟩

end Texts

/-- A command whose argument ends in two plus signs. -/
def languageLine : Text := "Get-A c++"

def languageTrees : List Tree :=
  [.word (onFirstLine 0 3) .joined, .symbol '-' (onFirstLine 3 4) .joined,
    .word (onFirstLine 4 5) .alone, .word (onFirstLine 6 7) .joined,
    .symbol '+' (onFirstLine 7 8) .joined, .symbol '+' (onFirstLine 8 9) .alone]

def languageTokens : List Token := [.cmdlet (onFirstLine 0 5), .word (onFirstLine 6 9)]

theorem language_line_ends_statement :
    EndsStatement languageLine "Get-B" languageTokens [.cmdlet (onFirstLine 0 5)] := by
  have closed : ClassesClosed languageTokens := by
    intro before span after same
    obtain _ | ⟨first, _ | ⟨second, more⟩⟩ := before
    all_goals simp [languageTokens] at same
  have split : languageTrees = languageTrees.take 4 ++
      [.symbol '+' (onFirstLine 7 8) .joined, .symbol '+' (onFirstLine 8 9) .alone] := rfl
  have accepted : read languageLine = .ok languageTokens := rfl
  have lexed : Tree.read languageLine = .ok languageTrees := rfl
  have acceptedBehind : read "Get-B" = .ok [.cmdlet (onFirstLine 0 5)] := rfl
  rcases increments_at_line_ends accepted lexed split closed acceptedBehind with
    ⟨given, token, -, -, ends⟩ | ⟨given, signs, -⟩
  · exact ends
  · have last := congrArg List.getLast? signs
    simp [languageTokens] at last

def counterLine : Text := "$i++"

def counterTrees : List Tree :=
  [.symbol '$' (onFirstLine 0 1) .joined, .word (onFirstLine 1 2) .joined,
    .symbol '+' (onFirstLine 2 3) .joined, .symbol '+' (onFirstLine 3 4) .alone]

def counterTokens : List Token :=
  [.variable (onFirstLine 0 2) (onFirstLine 1 2), .symbol '+' (onFirstLine 2 3),
    .symbol '+' (onFirstLine 3 4)]

/-- The statement does not end with the line, and the command in the next line is read as bare text. -/
theorem counter_line_runs_on :
    read counterLine = .ok counterTokens ∧ Tree.read counterLine = .ok counterTrees ∧
      ClassesClosed counterTokens ∧ read "Get-Foo" = .ok [.cmdlet (onFirstLine 0 7)] ∧
      read "$i++\nGet-Foo" = .ok (counterTokens ++ [.word ⟨⟨5, 2, 1⟩, ⟨12, 2, 8⟩⟩]) ∧
      ¬ EndsStatement counterLine "Get-Foo" counterTokens [.cmdlet (onFirstLine 0 7)] := by
  have lines : read (counterLine ++ Text.lineFeed :: ("Get-Foo" : Text)) =
      .ok (counterTokens ++ [.word ⟨⟨5, 2, 1⟩, ⟨12, 2, 8⟩⟩]) := rfl
  refine ⟨rfl, rfl, ?_, rfl, rfl, ?_⟩
  · intro before span after same
    obtain _ | ⟨first, _ | ⟨second, _ | ⟨third, more⟩⟩⟩ := before
    all_goals simp [counterTokens] at same
  · intro ends
    rw [EndsStatement, lines] at ends
    simp [shiftAll] at ends

end ScopeLint.Token
