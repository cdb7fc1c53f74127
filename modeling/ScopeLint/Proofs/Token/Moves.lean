import ScopeLint.Proofs.Tree.Coverage
import ScopeLint.Token.Classify

/-!
The classifier one lexeme at a time. Everything that a lexeme does is a move: the tokens it gives,
what it makes of the progress, and how many of the lexemes behind it it takes along. The classifier
makes one move after the other, and proofs about it go by its moves.
-/

namespace ScopeLint.Token

/-- A run of joined lexemes behind a first one, and how many there are. Command names and bare text
differ only in what they extend over. -/
def run (continues : Tree → Bool) (span : Span) (spacing : Spacing) : List Tree → Span × Nat
  | [] => (span, 0)
  | tree :: rest =>
      if spacing = .joined && continues tree then
        let (whole, count) := run continues (span.through tree.span) tree.spacing rest
        (whole, count + 1)
      else (span, 0)

def continuesName (tree : Tree) : Bool :=
  tree.isWord || tree.isSymbol '-' || tree.isSymbol '+' || tree.isSymbol '.'

theorem commandRun_eq (span : Span) (spacing : Spacing) (rest : List Tree) :
    commandRun span spacing rest = run continuesName span spacing rest := by
  induction rest generalizing span spacing with
  | nil => rfl
  | cons tree rest induction =>
      simp only [commandRun, run, induction]
      rfl

theorem argumentRun_eq (span : Span) (spacing : Spacing) (rest : List Tree) :
    argumentRun span spacing rest = run continuesArgument span spacing rest := by
  induction rest generalizing span spacing with
  | nil => rfl
  | cons tree rest induction => simp only [argumentRun, run, induction]

theorem run_le (continues : Tree → Bool) (span : Span) (spacing : Spacing) (rest : List Tree) :
    (run continues span spacing rest).2 ≤ rest.length := by
  induction rest generalizing span spacing with
  | nil => exact Nat.le_refl _
  | cons tree rest induction =>
      rw [run]
      split
      next => exact Nat.succ_le_succ (induction _ _)
      next => exact Nat.zero_le _

theorem variableRun_single {rest : List Tree} {sign : Option Span} {name : Span} {after : Spacing}
    (single : ∀ colon more, after = .joined → rest = .symbol ':' colon .joined :: more → False) :
    variableRun sign (.word name after :: rest) =
      ([.variable ((sign.map fun sign => sign.through name).getD name) name], 1) := by
  rw [variableRun]
  exact single

theorem variableRun_le (sign : Option Span) (trees : List Tree) :
    (variableRun sign trees).2 ≤ trees.length := by
  induction sign, trees using variableRun.induct with
  | case1 sign name colon rest tokens count run induction =>
      rw [run] at induction
      simp only [variableRun, run, List.length_cons]
      exact Nat.add_le_add_right induction 2
  | case2 sign name spacing rest other =>
      rw [variableRun_single other]
      exact Nat.succ_le_succ (Nat.zero_le _)
  | case3 sign trees other =>
      rw [variableRun]
      · exact Nat.zero_le _
      · exact other

def nextColon? : List Tree → Option Span
  | .symbol ':' span _ :: _ => some span
  | _ => none

theorem exists_of_nextWord {rest : List Tree} {name : Span} (word : nextWord? rest = some name) :
    ∃ spacing later, rest = .word name spacing :: later := by
  unfold nextWord? at word
  split at word
  next span spacing later =>
    obtain rfl := Option.some.inj word
    exact ⟨spacing, later, rfl⟩
  next => cases word

theorem exists_of_nextColon {rest : List Tree} {second : Span}
    (colon : nextColon? rest = some second) :
    ∃ spacing later, rest = .symbol ':' second spacing :: later := by
  unfold nextColon? at colon
  split at colon
  next span spacing later =>
    obtain rfl := Option.some.inj colon
    exact ⟨spacing, later, rfl⟩
  next => cases colon

/-- The effect of a symbol that neither continues a line nor starts a variable, given the word or
colon directly behind it. -/
def otherEffect (stream : Stream) (mode : Mode) (char : Char) (span : Span) (spacing : Spacing)
    (word colon : Option Span) : Effect :=
  let plain := Token.symbol char span
  match char with
  | '-' =>
      match spacing, word with
      | .joined, some name => ⟨[.flag (span.through name) name], .argument, 1⟩
      | _, _ => ⟨[plain], mode, 0⟩
  | ':' =>
      match spacing, colon with
      | .joined, some second => ⟨[.doubleColon (span.through second)], .field, 1⟩
      | _, _ => ⟨[plain], mode, 0⟩
  | '=' => ⟨[plain], .function, 0⟩
  | '.' => ⟨[plain], .field, 0⟩
  | ';' => ⟨[plain], stream.start, 0⟩
  | ',' => ⟨[plain], if stream.start = .typeName then stream.start else mode, 0⟩
  | _ => ⟨[plain], mode, 0⟩

/-- A symbol looks no further than the next lexeme, but for the names of a variable. -/
theorem ofSymbol_eq (stream : Stream) (mode : Mode) (char : Char) (span : Span) (spacing : Spacing)
    (rest : List Tree) :
    ofSymbol stream mode char span spacing rest =
      if char = '\x60' && spacing = .joined then
        if nextIsSymbol '\n' rest then .ok ⟨[], mode, 1⟩ else .error ⟨.unknownEscape, span.start⟩
      else if char = '\n' && stream.delimiter = .brace then .ok ⟨[.symbol ';' span], stream.start, 0⟩
      else if char = '|' || char = '+' then
        .ok ⟨[.symbol char span], if char = '|' then .function else mode,
          if nextIsSymbol '\n' rest then 1 else 0⟩
      else if char = '$' && spacing = .joined && (nextWord? rest).isSome then
        .ok ⟨(variableRun (some span) rest).1, .argument, (variableRun (some span) rest).2⟩
      else .ok (otherEffect stream mode char span spacing (nextWord? rest) (nextColon? rest)) := by
  unfold ofSymbol
  dsimp only
  split
  next => rfl
  next =>
    split
    next => rfl
    next =>
      split
      next => rfl
      next =>
        split
        next => rfl
        next =>
          split
          · simp [otherEffect, nextWord?]
          · simp [otherEffect, nextColon?]
          · simp [otherEffect]
          · simp [otherEffect]
          · simp [otherEffect]
          · simp [otherEffect]
          · unfold otherEffect
            dsimp only
            split
            · split
              · obtain ⟨_, _, rfl⟩ := exists_of_nextWord ‹nextWord? rest = some _›
                simp_all
              · rfl
            · split
              · obtain ⟨_, _, rfl⟩ := exists_of_nextColon ‹nextColon? rest = some _›
                simp_all
              · rfl
            all_goals simp_all

def signKinds : List TokenKind := [.variable, .flag, .doubleColon, .symbol]

theorem kind_variableRun (sign : Option Span) (trees : List Tree) :
    ∀ token ∈ (variableRun sign trees).1, token.kind ∈ signKinds := by
  induction sign, trees using variableRun.induct with
  | case1 sign name colon rest tokens count run induction =>
      rw [run] at induction
      simp only [variableRun, run, List.mem_cons]
      rintro token (rfl | rfl | inside)
      · simp [kind, signKinds]
      · simp [kind, signKinds]
      · exact induction token inside
  | case2 sign name spacing rest other =>
      rw [variableRun_single other]
      simp [kind, signKinds]
  | case3 trees sign other =>
      rw [variableRun]
      · simp
      · exact other

theorem kind_otherEffect (stream : Stream) (mode : Mode) (char : Char) (span : Span)
    (spacing : Spacing) (word colon : Option Span) :
    ∀ token ∈ (otherEffect stream mode char span spacing word colon).tokens,
      token.kind ∈ signKinds := by
  unfold otherEffect
  dsimp only
  repeat' split
  all_goals simp [kind, signKinds]

theorem kind_ofSymbol {stream : Stream} {mode : Mode} {char : Char} {span : Span}
    {spacing : Spacing} {rest : List Tree} {effect : Effect}
    (made : ofSymbol stream mode char span spacing rest = .ok effect) :
    ∀ token ∈ effect.tokens, token.kind ∈ signKinds := by
  rw [ofSymbol_eq] at made
  split at made
  · split at made
    · obtain rfl := Except.ok.inj made
      simp
    · cases made
  · split at made
    · obtain rfl := Except.ok.inj made
      simp [kind, signKinds]
    · split at made
      · obtain rfl := Except.ok.inj made
        simp [kind, signKinds]
      · split at made
        · obtain rfl := Except.ok.inj made
          exact kind_variableRun _ _
        · obtain rfl := Except.ok.inj made
          exact kind_otherEffect _ _ _ _ _ _ _

theorem ne_group_of_sign {token : Token} (sign : token.kind ∈ signKinds) : token.kind ≠ .group := by
  intro group
  simp [group, signKinds] at sign

structure Move where
  tokens : List Token
  progress : Progress
  skip : Nat

def moveWord (source : Text) (progress : Progress) (span : Span) (spacing : Spacing)
    (rest : List Tree) : Move :=
  match progress.mode with
  | .field | .typeName => ⟨[.field span], { progress with mode := .argument }, 0⟩
  | .function =>
      let (whole, count) := commandRun span spacing rest
      ⟨[ofCommand source whole], progress.afterCommand (ofCommand source whole), count⟩
  | .argument =>
      if span.slice source = Keyword.in.text then
        ⟨[.keyword .in span], { progress with mode := .function }, 0⟩
      else
        let (whole, count) := argumentRun span spacing rest
        ⟨[.word whole], progress, count⟩

def moveSymbol (stream : Stream) (progress : Progress) (char : Char) (span : Span)
    (spacing : Spacing) (rest : List Tree) : Except SyntaxError Move :=
  if marksGroup char span rest then .ok ⟨[], { progress with atSign := some span }, 0⟩
  else do
    let effect ← ofSymbol stream progress.mode char span spacing rest
    return ⟨effect.tokens, { progress with mode := effect.mode }, effect.skip⟩

def groupToken (progress : Progress) (delimiter : Delimiter) (span : Span) (body : List Token) :
    Token :=
  .group delimiter (progress.atSign.map fun _ => GroupSign.atSign)
    ((progress.atSign.map fun sign => sign.through span).getD span) body

def move (source : Text) (stream : Stream) (progress : Progress) (tree : Tree) (rest : List Tree) :
    Except SyntaxError Move :=
  match tree with
  | .word span spacing => .ok (moveWord source progress span spacing rest)
  | .symbol char span spacing => moveSymbol stream progress char span spacing rest
  | .number span => .ok ⟨[.number span], { progress with mode := .argument }, 0⟩
  | .string span _ => do
      let parts ← classifyInside source stream tree
      return ⟨[.string span parts], { progress with mode := .argument }, 0⟩
  | .group delimiter span _ => do
      let body ← classifyInside source ⟨innerMode stream progress delimiter, delimiter⟩ tree
      return ⟨[groupToken progress delimiter span body], ⟨progress.mode, false, none⟩, 0⟩

section

variable (source : Text) (stream : Stream) (progress : Progress)

theorem classify_nil (skip : Nat) : classify source stream progress skip [] = .ok [] := by
  cases skip <;> rw [classify]

theorem classify_skip (skip : Nat) (tree : Tree) (rest : List Tree) :
    classify source stream progress (skip + 1) (tree :: rest) =
      classify source stream progress skip rest := by
  rw [classify]

/-- Classifying is making a move and going on behind it. -/
theorem classify_cons (tree : Tree) (rest : List Tree) :
    classify source stream progress 0 (tree :: rest) = (do
      let made ← move source stream progress tree rest
      let tokens ← classify source stream made.progress made.skip rest
      return made.tokens ++ tokens) := by
  cases tree with
  | word span spacing =>
      rw [classify]
      simp only [move, moveWord]
      cases progress.mode with
      | field => rfl
      | typeName => rfl
      | function => rfl
      | argument =>
          dsimp only
          split <;> rfl
  | symbol char span spacing =>
      rw [classify]
      simp only [move, moveSymbol]
      split
      next => exact (bind_pure _).symm
      next =>
        cases ofSymbol stream progress.mode char span spacing rest <;> rfl
  | number span =>
      rw [classify]
      rfl
  | string span parts =>
      rw [classify, move]
      cases classifyInside source stream (.string span parts) <;> rfl
  | group delimiter span body =>
      rw [classify, move]
      cases classifyInside source ⟨innerMode stream progress delimiter, delimiter⟩
        (.group delimiter span body) <;> rfl

end

end ScopeLint.Token
