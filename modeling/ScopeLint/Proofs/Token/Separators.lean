import ScopeLint.Proofs.Token.Readings

/-!
Separators. A semicolon ends a command and a bar ends one of a pipeline; the word behind them is read
in the mode they set. That is so for every separator at a place of its stream, and of all the runs
that take lexemes along only bare text takes separators: one that touches a word or symbol before it
may vanish into the text of an argument.
-/

namespace ScopeLint.Token

variable {source : Text} {stream : Stream} {trees after : List Tree} {tokens : List Token}
  {progress : Progress} {char : Char} {span : Span} {spacing : Spacing}

def separatorMode (stream : Stream) (char : Char) : Mode :=
  if char = '|' then .function else stream.start

/-- Where reading goes on behind a separator: a bar takes a line break along. -/
def behindSeparator (char : Char) (after : List Tree) : List Tree :=
  if char = '|' && nextIsSymbol '\n' after then after.drop 1 else after

/-- The token of a word where a command is expected, or a name. -/
def openingToken (source : Text) (mode : Mode) (name : Span) (touching : Spacing)
    (more : List Tree) : Token :=
  if mode = .function then ofCommand source (commandRun name touching more).1 else .field name

theorem openingToken_ne_word (mode : Mode) (name : Span) (touching : Spacing) (more : List Tree) :
    (openingToken source mode name touching more).kind ≠ .word := by
  unfold openingToken ofCommand
  dsimp only
  repeat' split
  all_goals exact nofun

theorem head_of_word {name : Span} {touching : Spacing} {more : List Tree} {behind : List Token}
    (opening : progress.mode ≠ .argument)
    (continued : classify source stream progress 0 (.word name touching :: more) = .ok behind) :
    behind.head? = some (openingToken source progress.mode name touching more) := by
  rw [classify_cons] at continued
  obtain ⟨made, moved, continued⟩ := Except.exists_of_bind continued
  obtain ⟨others, -, same⟩ := Except.exists_of_bind continued
  rw [← Except.ok.inj same]
  cases acts_of_move moved with
  | name expected =>
      have other : progress.mode ≠ .function := by
        rcases expected with field | typeName
        · simp [field]
        · simp [typeName]
      simp [openingToken, other]
  | command expected => simp [openingToken, expected]
  | membership expected => exact absurd expected opening
  | argument expected => exact absurd expected opening

theorem Reading.opening (reading : Reading source stream trees tokens) :
    stream.start ≠ .argument := by
  cases reading with
  | file => exact nofun
  | group =>
      unfold innerMode
      dsimp only
      repeat' split
      all_goals exact nofun
  | expression => exact nofun

theorem separator_move {made : Move} (separator : char = ';' ∨ char = '|')
    (moved : move source stream progress (.symbol char span spacing) after = .ok made) :
    made.tokens = [.symbol char span] ∧
      made.progress = { progress with mode := separatorMode stream char } ∧
      after.drop made.skip = behindSeparator char after := by
  cases acts_of_move moved with
  | mark marks =>
      unfold marksGroup at marks
      split at marks
      · rcases separator with rfl | rfl <;> simp at marks
      · cases marks
  | symbol acts =>
      rcases separator with rfl | rfl
      · cases acts with
        | plain => exact ⟨rfl, rfl, rfl⟩
      · cases acts with
        | bar =>
            refine ⟨rfl, rfl, ?_⟩
            unfold behindSeparator
            by_cases feed : nextIsSymbol '\n' after = true <;> simp [feed]
        | plain alone => exact absurd rfl alone

/-- A separator with a token of its own: what follows is read in the mode it sets, and so a word
directly behind it is a command or a name and no bare text. -/
def StandsAlone (source : Text) (stream : Stream) (trees : List Tree) (tokens : List Token)
    (char : Char) (span : Span) (after : List Tree) : Prop :=
  ∃ front progress spacing behind,
    Reaches source stream trees front progress (.symbol char span spacing :: after) ∧
      tokens = front ++ .symbol char span :: behind ∧
      classify source stream { progress with mode := separatorMode stream char } 0
        (behindSeparator char after) = .ok behind ∧
      ∀ name touching more, behindSeparator char after = .word name touching :: more →
        ∃ token, behind.head? = some token ∧ token.kind ≠ .word ∧
          token = openingToken source (separatorMode stream char) name touching more

/-- A separator inside bare text: it is among the lexemes that an argument extends over. -/
def Swallowed (source : Text) (stream : Stream) (trees : List Tree) (tokens : List Token)
    (separator : Tree) (after : List Tree) : Prop :=
  ∃ front progress name touching taken behind,
    Reaches source stream trees front progress (.word name touching :: (taken ++ separator :: after)) ∧
      progress.mode = .argument ∧
      taken.length < (argumentRun name touching (taken ++ separator :: after)).2 ∧
      tokens = front ++ .word (argumentRun name touching (taken ++ separator :: after)).1 :: behind

theorem Reaches.standsAlone {front : List Token} (separator : char = ';' ∨ char = '|')
    (opening : stream.start ≠ .argument) (reads : ReadsAs source stream trees tokens)
    (place : Reaches source stream trees front progress (.symbol char span spacing :: after)) :
    StandsAlone source stream trees tokens char span after := by
  obtain ⟨made, behind, moved, continued, same⟩ := place.exists_move reads
  obtain ⟨given, mode, left⟩ := separator_move separator moved
  rw [mode, left] at continued
  rw [given] at same
  refine ⟨front, progress, spacing, behind, place, same, continued, ?_⟩
  intro name touching more next
  rw [next] at continued
  have opens : separatorMode stream char ≠ .argument := by
    unfold separatorMode
    split
    · exact nofun
    · exact opening
  exact ⟨_, head_of_word opens continued, openingToken_ne_word _ _ _ _, rfl⟩

theorem TakenAlong.swallowed (separator : char = ';' ∨ char = '|')
    (reads : ReadsAs source stream trees tokens)
    (taken : TakenAlong source stream trees (.symbol char span spacing) after) :
    Swallowed source stream trees tokens (.symbol char span spacing) after := by
  rcases taken.companion_or_bare with companion | ⟨-, bare⟩
  · rcases separator with rfl | rfl <;> cases companion
  · obtain ⟨front, progress, name, touching, between, made, place, moved, mode, given, short⟩ := bare
    obtain ⟨again, behind, movedAgain, -, same⟩ := place.exists_move reads
    obtain rfl := Except.ok.inj (moved.symm.trans movedAgain)
    rw [given] at same
    exact ⟨front, progress, name, touching, between, behind, place, mode, short, same⟩

theorem run_joined (continues : Tree → Bool) {tree : Tree} (between : List Tree) (first : Tree)
    (span : Span)
    (short : between.length < (run continues span first.spacing (between ++ tree :: after)).2) :
    (first :: between).getLast?.map Tree.spacing = some .joined := by
  induction between generalizing first span with
  | nil =>
      rw [List.nil_append, run] at short
      split at short
      next continued =>
        have joined : first.spacing = .joined := by
          simpa using (Bool.and_eq_true_iff.mp continued).1
        simp [joined]
      next => simp at short
  | cons next more induction =>
      rw [List.cons_append, run] at short
      split at short
      next =>
        rw [List.getLast?_cons_cons]
        exact induction next _ (Nat.lt_of_succ_lt_succ short)
      next => simp at short

theorem Swallowed.touches {before : List Tree} {separator : Tree}
    (swallowed : Swallowed source stream trees tokens separator after)
    (split : trees = before ++ separator :: after) :
    before.getLast?.map Tree.spacing = some .joined := by
  obtain ⟨front, progress, name, touching, between, behind, place, -, short, -⟩ := swallowed
  obtain ⟨earlier, same⟩ := place.suffix
  have whole : (earlier ++ .word name touching :: between) ++ separator :: after =
      before ++ separator :: after := by
    rw [← split, ← same, List.append_assoc, List.cons_append]
  rw [argumentRun_eq] at short
  have joined := run_joined _ between (.word name touching) name short
  obtain ⟨last, final, touches⟩ := Option.map_eq_some_iff.mp joined
  rw [← List.append_cancel_right whole, List.getLast?_append, final]
  simpa using touches

theorem StandsAlone.filled (alone : StandsAlone source stream trees tokens char span after) :
    tokens ≠ [] := by
  obtain ⟨front, progress, spacing, behind, -, same, -, -⟩ := alone
  simp [same]

theorem Swallowed.filled {separator : Tree}
    (swallowed : Swallowed source stream trees tokens separator after) : tokens ≠ [] := by
  obtain ⟨front, progress, name, touching, between, behind, -, -, -, same⟩ := swallowed
  simp [same]

/-- Of the separators of an accepted text, in whatever stream, each is a token of its own behind which
reading goes on in the mode it sets, unless it touches a word or symbol in front of it and lies in
the bare text of an argument. -/
theorem separators_stand_alone {all : List Token} {before : List Tree}
    (accepted : read source = .ok all) (reading : Reading source stream trees tokens)
    (split : trees = before ++ .symbol char span spacing :: after)
    (separator : char = ';' ∨ char = '|') :
    tokens ∈ streams all ∧
      (StandsAlone source stream trees tokens char span after ∨
        before.getLast?.map Tree.spacing = some .joined ∧
          Swallowed source stream trees tokens (.symbol char span spacing) after) := by
  rcases exists_place reading.reads split with ⟨front, progress, place⟩ | taken
  · have alone := place.standsAlone separator reading.opening reading.reads
    exact ⟨reading.shown accepted alone.filled, .inl alone⟩
  · have swallowed := taken.swallowed separator reading.reads
    exact ⟨reading.shown accepted swallowed.filled, .inr ⟨swallowed.touches split, swallowed⟩⟩

def onFirstLine (start stop : Int) : Span := ⟨⟨start, 1, start + 1⟩, ⟨stop, 1, stop + 1⟩⟩

/-- An expression in a string, with a semicolon that touches only a number. -/
def quote : Text := "A \"$(b 1;c)\""

def quoteBody : List Tree :=
  [.word (onFirstLine 5 6) .alone, .number (onFirstLine 7 8),
    .symbol ';' (onFirstLine 8 9) .joined, .word (onFirstLine 9 10) .alone]

def quoteTrees : List Tree :=
  [.word (onFirstLine 0 1) .alone,
    .string (onFirstLine 2 12) [.group .paren (onFirstLine 4 11) quoteBody]]

def quoteTokens : List Token :=
  [.cmdlet (onFirstLine 0 1),
    .string (onFirstLine 2 12)
      [.group .paren (some .dollar) (onFirstLine 4 11)
        [.cmdlet (onFirstLine 5 6), .number (onFirstLine 7 8), .symbol ';' (onFirstLine 8 9),
          .cmdlet (onFirstLine 9 10)]]]

theorem quote_separators_stand_alone :
    ∃ inner, Reading quote ⟨.function, .paren⟩ quoteBody inner ∧ inner ∈ streams quoteTokens ∧
      StandsAlone quote ⟨.function, .paren⟩ quoteBody inner ';' (onFirstLine 8 9)
        [.word (onFirstLine 9 10) .alone] := by
  have accepted : read quote = .ok quoteTokens := rfl
  have file : Reading quote .file quoteTrees quoteTokens := .file rfl rfl
  have string : .string (onFirstLine 2 12) [.group .paren (onFirstLine 4 11) quoteBody] ∈
      quoteTrees := List.mem_cons_of_mem _ List.mem_cons_self
  obtain ⟨inner, reading⟩ := file.exists_expression string List.mem_cons_self
  have split : quoteBody =
      [.word (onFirstLine 5 6) .alone, .number (onFirstLine 7 8)] ++
        .symbol ';' (onFirstLine 8 9) .joined :: [.word (onFirstLine 9 10) .alone] := rfl
  obtain ⟨shown, alone | ⟨touches, -⟩⟩ :=
    separators_stand_alone accepted reading split (.inl rfl)
  · exact ⟨inner, reading, shown, alone⟩
  · cases touches

def crowded : Text := "Get-A b;Get-C d|Get-E"

def crowdedTokens : List Token :=
  [.cmdlet (onFirstLine 0 5), .word (onFirstLine 6 13), .word (onFirstLine 14 21)]

/-- Both separators vanish into bare text, and the commands behind them with them. -/
theorem crowded_separators_lost :
    read crowded = .ok crowdedTokens ∧ ∃ trees, Reading crowded .file trees crowdedTokens ∧
      .symbol ';' (onFirstLine 7 8) .joined ∈ trees ∧
      .symbol '|' (onFirstLine 15 16) .joined ∈ trees ∧
      ∀ char span, .symbol char span ∉ crowdedTokens := by
  refine ⟨rfl, _, .file rfl rfl, ?_, ?_, ?_⟩
  · exact List.mem_of_getElem? (i := 4) rfl
  · exact List.mem_of_getElem? (i := 9) rfl
  · intro char span member
    simp [crowdedTokens] at member

end ScopeLint.Token
