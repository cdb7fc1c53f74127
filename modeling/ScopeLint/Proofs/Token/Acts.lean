import ScopeLint.Proofs.Token.Moves

/-!
What a lexeme can do, said once and case by case. A move of the classifier is one of these acts, so
whatever holds of every act holds of every move: what lexemes take along, what they make of a class
keyword seen before, and which tokens they give.
-/

namespace ScopeLint.Token

section Symbols

variable {stream : Stream} {mode : Mode} {char : Char} {span : Span} {spacing : Spacing}
  {rest : List Tree} {effect : Effect}

def plainMode (stream : Stream) (mode : Mode) : Char → Mode
  | '=' => .function
  | '.' => .field
  | ';' => stream.start
  | ',' => if stream.start = .typeName then stream.start else mode
  | _ => mode

/-- How a symbol may be read in front of the rest of its stream. -/
inductive SymbolActs (stream : Stream) (mode : Mode) (span : Span) (rest : List Tree) :
    Char → Effect → Prop
  /-- A backtick that continues the line. -/
  | continuation (feed : nextIsSymbol '\n' rest = true) :
      SymbolActs stream mode span rest '\x60' ⟨[], mode, 1⟩
  | lineBreak (braced : stream.delimiter = .brace) :
      SymbolActs stream mode span rest '\n' ⟨[.symbol ';' span], stream.start, 0⟩
  | bar :
      SymbolActs stream mode span rest '|'
        ⟨[.symbol '|' span], .function, if nextIsSymbol '\n' rest then 1 else 0⟩
  | plus :
      SymbolActs stream mode span rest '+'
        ⟨[.symbol '+' span], mode, if nextIsSymbol '\n' rest then 1 else 0⟩
  | dollar (word : (nextWord? rest).isSome = true) :
      SymbolActs stream mode span rest '$'
        ⟨(variableRun (some span) rest).1, .argument, (variableRun (some span) rest).2⟩
  | flag {name : Span} (word : nextWord? rest = some name) :
      SymbolActs stream mode span rest '-' ⟨[.flag (span.through name) name], .argument, 1⟩
  | doubleColon {second : Span} (colon : nextColon? rest = some second) :
      SymbolActs stream mode span rest ':' ⟨[.doubleColon (span.through second)], .field, 1⟩
  | plain {char : Char} (alone : char ≠ '|') :
      SymbolActs stream mode span rest char ⟨[.symbol char span], plainMode stream mode char, 0⟩

theorem symbolActs_other (alone : char ≠ '|') :
    SymbolActs stream mode span rest char
      (otherEffect stream mode char span spacing (nextWord? rest) (nextColon? rest)) := by
  unfold otherEffect
  dsimp only
  split
  · split
    · exact .flag ‹_›
    · exact .plain alone
  · split
    · exact .doubleColon ‹_›
    · exact .plain alone
  · exact .plain alone
  · exact .plain alone
  · exact .plain alone
  · exact .plain alone
  · have same : plainMode stream mode char = mode := by
      unfold plainMode
      split <;> simp_all
    have acts : SymbolActs stream mode span rest char
      ⟨[.symbol char span], plainMode stream mode char, 0⟩ := .plain alone
    rwa [same] at acts

theorem symbolActs (made : ofSymbol stream mode char span spacing rest = .ok effect) :
    SymbolActs stream mode span rest char effect := by
  rw [ofSymbol_eq] at made
  split at made
  next tick =>
    obtain ⟨rfl, -⟩ : char = '\x60' ∧ spacing = .joined := by simpa using tick
    split at made
    next feed =>
      obtain rfl := Except.ok.inj made
      exact .continuation feed
    next => cases made
  next =>
    split at made
    next newline =>
      obtain ⟨rfl, braced⟩ : char = '\n' ∧ stream.delimiter = .brace := by simpa using newline
      obtain rfl := Except.ok.inj made
      exact .lineBreak braced
    next =>
      split at made
      next operator =>
        obtain rfl := Except.ok.inj made
        obtain rfl | rfl : char = '|' ∨ char = '+' := by simpa using operator
        · exact .bar
        · exact .plus
      next noOperator =>
        have alone : char ≠ '|' := by
          rintro rfl
          exact noOperator rfl
        split at made
        next dollar =>
          obtain ⟨⟨rfl, -⟩, word⟩ : (char = '$' ∧ spacing = .joined) ∧ (nextWord? rest).isSome := by
            simpa using dollar
          obtain rfl := Except.ok.inj made
          exact .dollar word
        next =>
          obtain rfl := Except.ok.inj made
          exact symbolActs_other alone

end Symbols

section Lexemes

variable {source : Text} {stream : Stream} {progress : Progress} {tree : Tree} {rest : List Tree}
  {made : Move}

inductive Acts (source : Text) (stream : Stream) (progress : Progress) (rest : List Tree) :
    Tree → Move → Prop
  | name {span : Span} {spacing : Spacing}
      (expected : progress.mode = .field ∨ progress.mode = .typeName) :
      Acts source stream progress rest (.word span spacing)
        ⟨[.field span], { progress with mode := .argument }, 0⟩
  | command {span : Span} {spacing : Spacing} (expected : progress.mode = .function) :
      Acts source stream progress rest (.word span spacing)
        ⟨[ofCommand source (commandRun span spacing rest).1],
          progress.afterCommand (ofCommand source (commandRun span spacing rest).1),
          (commandRun span spacing rest).2⟩
  | membership {span : Span} {spacing : Spacing} (expected : progress.mode = .argument)
      (spelled : span.slice source = Keyword.in.text) :
      Acts source stream progress rest (.word span spacing)
        ⟨[.keyword .in span], { progress with mode := .function }, 0⟩
  | argument {span : Span} {spacing : Spacing} (expected : progress.mode = .argument)
      (bare : span.slice source ≠ Keyword.in.text) :
      Acts source stream progress rest (.word span spacing)
        ⟨[.word (argumentRun span spacing rest).1], progress, (argumentRun span spacing rest).2⟩
  /-- An at sign that belongs to the group behind it. -/
  | mark {char : Char} {span : Span} {spacing : Spacing}
      (marks : marksGroup char span rest = true) :
      Acts source stream progress rest (.symbol char span spacing)
        ⟨[], { progress with atSign := some span }, 0⟩
  | symbol {char : Char} {span : Span} {spacing : Spacing} {effect : Effect}
      (acts : SymbolActs stream progress.mode span rest char effect) :
      Acts source stream progress rest (.symbol char span spacing)
        ⟨effect.tokens, { progress with mode := effect.mode }, effect.skip⟩
  | number {span : Span} :
      Acts source stream progress rest (.number span)
        ⟨[.number span], { progress with mode := .argument }, 0⟩
  | string {span : Span} {parts : List Tree} {tokens : List Token}
      (inside : classifyInside source stream (.string span parts) = .ok tokens) :
      Acts source stream progress rest (.string span parts)
        ⟨[.string span tokens], { progress with mode := .argument }, 0⟩
  | group {delimiter : Delimiter} {span : Span} {body : List Tree} {tokens : List Token}
      (inside : classifyInside source ⟨innerMode stream progress delimiter, delimiter⟩
        (.group delimiter span body) = .ok tokens) :
      Acts source stream progress rest (.group delimiter span body)
        ⟨[groupToken progress delimiter span tokens], ⟨progress.mode, false, none⟩, 0⟩

theorem acts_word (span : Span) (spacing : Spacing) :
    Acts source stream progress rest (.word span spacing)
      (moveWord source progress span spacing rest) := by
  unfold moveWord
  split
  next expected => exact .name (.inl expected)
  next expected => exact .name (.inr expected)
  next expected => exact .command expected
  next expected =>
    split
    next spelled => exact .membership expected spelled
    next bare => exact .argument expected bare

theorem acts_of_move (moved : move source stream progress tree rest = .ok made) :
    Acts source stream progress rest tree made := by
  cases tree with
  | word span spacing =>
      obtain rfl := Except.ok.inj moved
      exact acts_word span spacing
  | symbol char span spacing =>
      simp only [move, moveSymbol] at moved
      split at moved
      next marks =>
        obtain rfl := Except.ok.inj moved
        exact .mark marks
      next =>
        obtain ⟨effect, done, same⟩ := Except.exists_of_bind moved
        obtain rfl := Except.ok.inj same
        exact .symbol (symbolActs done)
  | number span =>
      obtain rfl := Except.ok.inj moved
      exact .number
  | string span parts =>
      obtain ⟨tokens, inside, same⟩ := Except.exists_of_bind moved
      obtain rfl := Except.ok.inj same
      exact .string inside
  | group delimiter span body =>
      obtain ⟨tokens, inside, same⟩ := Except.exists_of_bind moved
      obtain rfl := Except.ok.inj same
      exact .group inside

end Lexemes

section Taking

variable {source : Text} {stream : Stream} {progress : Progress} {tree : Tree} {rest : List Tree}
  {made : Move}

theorem run_takes (continues : Tree → Bool) (span : Span) (spacing : Spacing) (rest : List Tree) :
    ∀ next ∈ rest.take (run continues span spacing rest).2, continues next = true := by
  induction rest generalizing span spacing with
  | nil => simp
  | cons first rest induction =>
      rw [run]
      split
      next continued =>
        intro next member
        rcases List.mem_cons.mp member with rfl | member
        · exact (Bool.and_eq_true_iff.mp continued).2
        · exact induction _ _ next member
      next => simp

/-- The lexemes that command names, variables, flags and operators take along. -/
def isCompanion (tree : Tree) : Bool :=
  tree.isWord || ['-', '+', '.', ':', '\n'].any fun char => tree.isSymbol char

theorem isCompanion_of_name {next : Tree} (continued : continuesName next = true) :
    isCompanion next = true := by
  cases next with
  | symbol char span spacing =>
      simp only [continuesName, Tree.isWord, Tree.isSymbol] at continued
      simp only [isCompanion, Tree.isWord, Tree.isSymbol]
      grind
  | _ => simp_all [continuesName, isCompanion, Tree.isWord, Tree.isSymbol]

/-- What symbols take along: the names and colons of a variable, the name of a flag, the colon behind
a colon, and the line break behind an operator. -/
def trailsSymbol (tree : Tree) : Bool :=
  tree.isWord || tree.isSymbol ':' || tree.isSymbol '\n'

theorem isCompanion_of_trails {next : Tree} (trails : trailsSymbol next = true) :
    isCompanion next = true := by
  simp only [trailsSymbol, Bool.or_eq_true] at trails
  rcases trails with (word | colon) | feed
  · simp [isCompanion, word]
  · simp [isCompanion, colon]
  · simp [isCompanion, feed]

theorem trailsSymbol_of_feed (feed : nextIsSymbol '\n' rest = true) :
    ∀ next ∈ rest.take 1, trailsSymbol next = true := by
  cases rest with
  | nil => simp
  | cons next later =>
      have newline : next.isSymbol '\n' = true := by simpa [nextIsSymbol] using feed
      simp [trailsSymbol, newline]

theorem variableRun_takes (sign : Option Span) (trees : List Tree) :
    ∀ next ∈ trees.take (variableRun sign trees).2, trailsSymbol next = true := by
  induction sign, trees using variableRun.induct with
  | case1 sign name colon rest tokens count run induction =>
      rw [run] at induction
      simp only [variableRun, run, List.take_succ_cons, List.mem_cons]
      rintro next (rfl | rfl | later)
      · rfl
      · rfl
      · exact induction next later
  | case2 sign name spacing rest other =>
      rw [variableRun_single other]
      simp [trailsSymbol, Tree.isWord]
  | case3 trees sign other =>
      rw [variableRun]
      · simp
      · exact other

theorem SymbolActs.takes {mode : Mode} {span : Span} {char : Char} {effect : Effect}
    (acts : SymbolActs stream mode span rest char effect) :
    ∀ next ∈ rest.take effect.skip, trailsSymbol next = true := by
  cases acts with
  | continuation feed => exact trailsSymbol_of_feed feed
  | bar | plus =>
      dsimp only
      split
      next feed => exact trailsSymbol_of_feed feed
      next => simp
  | dollar word => exact variableRun_takes _ _
  | flag word =>
      obtain ⟨spacing, later, rfl⟩ := exists_of_nextWord word
      simp [trailsSymbol, Tree.isWord]
  | doubleColon colon =>
      obtain ⟨spacing, later, rfl⟩ := exists_of_nextColon colon
      simp [trailsSymbol, Tree.isSymbol]
  | lineBreak | plain => simp

/-- Only bare text takes other lexemes along than companions. -/
theorem Acts.companions (acts : Acts source stream progress rest tree made) :
    (∀ next ∈ rest.take made.skip, isCompanion next = true) ∨
      ∃ span spacing, tree = .word span spacing ∧ progress.mode = .argument ∧
        made.tokens = [.word (argumentRun span spacing rest).1] ∧
        made.skip = (argumentRun span spacing rest).2 := by
  cases acts with
  | command expected =>
      left
      intro next member
      rw [commandRun_eq] at member
      exact isCompanion_of_name (run_takes _ _ _ _ next member)
  | @argument span spacing expected bare => exact .inr ⟨span, spacing, rfl, expected, rfl, rfl⟩
  | symbol acts => exact .inl fun next member => isCompanion_of_trails (acts.takes next member)
  | name | membership | mark | number | string | group => simp

end Taking

end ScopeLint.Token
