import ScopeLint.Proofs.Token.Moves
import ScopeLint.Proofs.Tree.Bounds
import ScopeLint.Proofs.Tree.Shift

/-!
Classifying lexemes that are moved down. Lexemes of one text that are moved to where another text
holds the same bytes are classified the same, and the tokens are moved along. The two texts are told
apart only where a name is compared with a keyword, and there they show the same.
-/

namespace ScopeLint

/-- At spans moved down, the outer text shows what the inner one has. -/
def Span.Shows (offset : Offset) (inner outer : Text) : Prop :=
  ∀ span : Span, 0 ≤ span.start.byte → span.stop.byte ≤ inner.length →
    (span.shift offset).slice outer = span.slice inner

theorem Span.shows_append {offset : Offset} (before inner behind : Text)
    (width : offset.bytes = before.length) : Span.Shows offset inner (before ++ inner ++ behind) := by
  intro span low high
  by_cases crossed : span.stop.byte < span.start.byte
  · have moved : (span.shift offset).stop.byte < (span.shift offset).start.byte :=
      Int.add_lt_add_right crossed _
    simp [slice, crossed, moved]
  · have inside : ¬ (span.start.byte < 0 || span.stop.byte > inner.length ||
        span.start.byte > span.stop.byte) = true := by
      simp only [Bool.or_eq_true, decide_eq_true_eq]
      omega
    have insideMoved : ¬ ((span.shift offset).start.byte < 0 ||
        (span.shift offset).stop.byte > (before ++ inner ++ behind).length ||
        (span.shift offset).start.byte > (span.shift offset).stop.byte) = true := by
      simp only [Bool.or_eq_true, decide_eq_true_eq, shift, Location.shift, List.length_append, width]
      omega
    have start : (span.shift offset).start.byte.toNat = before.length + span.start.byte.toNat := by
      simp only [shift, Location.shift, width]
      omega
    have stop : (span.shift offset).stop.byte.toNat = before.length + span.stop.byte.toNat := by
      simp only [shift, Location.shift, width]
      omega
    have bound : span.stop.byte.toNat - span.start.byte.toNat ≤
        (inner.drop span.start.byte.toNat).length := by
      rw [List.length_drop]
      omega
    have short : span.start.byte.toNat ≤ inner.length := by omega
    rw [slice, if_neg insideMoved, slice, if_neg inside, start, stop, Text.slice, Text.slice,
      Nat.add_sub_add_left, List.append_assoc, List.drop_length_add_append,
      List.drop_append_of_le_length short, List.take_append_of_le_length bound]

namespace Token

mutual

def shift (offset : Offset) : Token → Token
  | .variable span name => .variable (span.shift offset) (name.shift offset)
  | flag span name => flag (span.shift offset) (name.shift offset)
  | cmdlet span => cmdlet (span.shift offset)
  | field span => field (span.shift offset)
  | keyword which span => keyword which (span.shift offset)
  | word span => word (span.shift offset)
  | number span => number (span.shift offset)
  | string span parts => string (span.shift offset) (shiftAll offset parts)
  | group delimiter sign span body =>
      group delimiter sign (span.shift offset) (shiftAll offset body)
  | doubleColon span => doubleColon (span.shift offset)
  | symbol char span => symbol char (span.shift offset)

def shiftAll (offset : Offset) : List Token → List Token
  | [] => []
  | token :: rest => token.shift offset :: shiftAll offset rest

end

variable {offset : Offset} {inner outer : Text} {stream : Stream} {progress : Progress}
  {rest trees : List Tree}

mutual

theorem shift_zero (token : Token) : token.shift .zero = token := by
  cases token with
  | string span parts => simp only [shift, Span.shift_zero, shiftAll_zero parts]
  | group delimiter sign span body => simp only [shift, Span.shift_zero, shiftAll_zero body]
  | _ => simp only [shift, Span.shift_zero]

theorem shiftAll_zero (tokens : List Token) : shiftAll .zero tokens = tokens := by
  cases tokens with
  | nil => rfl
  | cons token rest => rw [shiftAll, shift_zero token, shiftAll_zero rest]

end

theorem shiftAll_append (front behind : List Token) :
    shiftAll offset (front ++ behind) = shiftAll offset front ++ shiftAll offset behind := by
  induction front with
  | nil => rfl
  | cons token rest induction => simp only [List.cons_append, shiftAll, induction]

def Progress.shift (offset : Offset) (progress : Progress) : Progress :=
  { progress with atSign := progress.atSign.map (Span.shift offset) }

def Effect.shift (offset : Offset) (effect : Effect) : Effect :=
  { effect with tokens := shiftAll offset effect.tokens }

def Move.shift (offset : Offset) (made : Move) : Move :=
  ⟨shiftAll offset made.tokens, made.progress.shift offset, made.skip⟩

theorem run_shift {continues : Tree → Bool}
    (same : ∀ tree, continues (tree.shift offset) = continues tree) (span : Span) (spacing : Spacing)
    (rest : List Tree) :
    run continues (span.shift offset) spacing (Tree.shiftAll offset rest) =
      ((run continues span spacing rest).1.shift offset, (run continues span spacing rest).2) := by
  induction rest generalizing span spacing with
  | nil => rfl
  | cons tree rest induction =>
      have spaced : (tree.shift offset).spacing = tree.spacing := by
        cases tree <;> simp only [Tree.shift, Tree.spacing]
      have through : (span.shift offset).through (tree.shift offset).span =
          (span.through tree.span).shift offset := by
        rw [Tree.span_shift]
        rfl
      simp only [Tree.shiftAll, run, same, spaced, through, induction]
      split <;> rfl

theorem continuesName_shift (tree : Tree) :
    continuesName (tree.shift offset) = continuesName tree := by
  cases tree <;> simp only [Tree.shift, continuesName, Tree.isWord, Tree.isSymbol]

theorem continuesArgument_shift (tree : Tree) :
    continuesArgument (tree.shift offset) = continuesArgument tree := by
  cases tree <;> simp only [Tree.shift, continuesArgument]

theorem run_within {continues : Tree → Bool} {length : Int} (span : Span) (spacing : Spacing)
    (stop : span.stop.byte ≤ length) (within : Tree.WithinAll length rest) :
    (run continues span spacing rest).1.start = span.start ∧
      (run continues span spacing rest).1.stop.byte ≤ length := by
  induction rest generalizing span spacing with
  | nil => exact ⟨rfl, stop⟩
  | cons tree rest induction =>
      rw [Tree.WithinAll] at within
      rw [run]
      split
      next => exact induction (span.through tree.span) tree.spacing within.1.span.stop within.2
      next => exact ⟨rfl, stop⟩

theorem variableRun_shift (offset : Offset) (sign : Option Span) (trees : List Tree) :
    variableRun (sign.map (Span.shift offset)) (Tree.shiftAll offset trees) =
      (shiftAll offset (variableRun sign trees).1, (variableRun sign trees).2) := by
  induction sign, trees using variableRun.induct with
  | case1 sign name colon rest tokens count run induction =>
      simp only [Tree.shiftAll, Tree.shift, variableRun, run, shiftAll, shift] at induction ⊢
      rw [Option.map_none] at induction
      rw [induction]
      cases sign <;> rfl
  | case2 sign name spacing rest other =>
      have first : variableRun sign (.word name spacing :: rest) =
          ([.variable ((sign.map fun sign => sign.through name).getD name) name], 1) := by
        rw [variableRun]
        exact other
      rw [first]
      simp only [Tree.shiftAll, Tree.shift]
      rw [variableRun]
      · cases sign <;> rfl
      · intro colon later joined same
        cases rest with
        | nil => cases same
        | cons next rest =>
            cases next with
            | symbol char span spacing =>
                simp only [Tree.shiftAll, Tree.shift, List.cons.injEq, Tree.symbol.injEq] at same
                obtain ⟨⟨rfl, -, rfl⟩, -⟩ := same
                exact other span rest joined rfl
            | _ => simp [Tree.shiftAll, Tree.shift] at same
  | case3 trees sign other =>
      have noRun : variableRun sign trees = ([], 0) := by
        rw [variableRun]
        exact other
      rw [noRun]
      cases trees with
      | nil => rfl
      | cons tree rest =>
          cases tree with
          | word name spacing => exact absurd rfl (other name spacing rest)
          | _ => rfl

theorem nextIsSymbol_shift (char : Char) (rest : List Tree) :
    nextIsSymbol char (Tree.shiftAll offset rest) = nextIsSymbol char rest := by
  cases rest with
  | nil => rfl
  | cons tree rest => cases tree <;> simp [nextIsSymbol, Tree.shiftAll, Tree.shift, Tree.isSymbol]

theorem nextWord_shift (rest : List Tree) :
    nextWord? (Tree.shiftAll offset rest) = (nextWord? rest).map (Span.shift offset) := by
  cases rest with
  | nil => rfl
  | cons tree rest => cases tree <;> rfl

theorem nextColon_shift (rest : List Tree) :
    nextColon? (Tree.shiftAll offset rest) = (nextColon? rest).map (Span.shift offset) := by
  cases rest with
  | nil => rfl
  | cons tree rest =>
      cases tree with
      | symbol char span spacing =>
          simp only [Tree.shiftAll, Tree.shift]
          by_cases colon : char = ':'
          · subst colon
            rfl
          · simp [nextColon?, colon]
      | _ => rfl

theorem otherEffect_shift (mode : Mode) (char : Char) (span : Span) (spacing : Spacing)
    (word colon : Option Span) :
    otherEffect stream mode char (span.shift offset) spacing (word.map (Span.shift offset))
        (colon.map (Span.shift offset)) =
      (otherEffect stream mode char span spacing word colon).shift offset := by
  unfold otherEffect
  dsimp only
  split
  · cases spacing <;> cases word <;> rfl
  · cases spacing <;> cases colon <;> rfl
  · rfl
  · rfl
  · rfl
  · rfl
  · rfl

theorem ofSymbol_shift (mode : Mode) (char : Char) (span : Span) (spacing : Spacing) :
    ofSymbol stream mode char (span.shift offset) spacing (Tree.shiftAll offset rest) =
      relocate offset (Effect.shift offset) (ofSymbol stream mode char span spacing rest) := by
  have names := variableRun_shift offset (some span) rest
  rw [Option.map_some] at names
  rw [ofSymbol_eq, ofSymbol_eq, nextIsSymbol_shift, nextWord_shift, nextColon_shift, names,
    Option.isSome_map, otherEffect_shift]
  repeat' split
  all_goals rfl

section Texts

variable (shown : Span.Shows offset inner outer)

include shown

theorem ofCommand_shift {span : Span} (low : 0 ≤ span.start.byte)
    (high : span.stop.byte ≤ inner.length) :
    ofCommand outer (span.shift offset) = (ofCommand inner span).shift offset := by
  simp only [ofCommand, shown span low high]
  repeat' split
  all_goals rfl

omit shown in
theorem afterCommand_shift (token : Token) :
    (progress.shift offset).afterCommand (token.shift offset) =
      (progress.afterCommand token).shift offset := by
  cases token with
  | keyword which span => cases which <;> rfl
  | _ => rfl

theorem moveWord_shift {span : Span} (within : span.Within inner.length) (spacing : Spacing)
    (withinRest : Tree.WithinAll inner.length rest) :
    moveWord outer (progress.shift offset) (span.shift offset) spacing (Tree.shiftAll offset rest) =
      (moveWord inner progress span spacing rest).shift offset := by
  have mode : (progress.shift offset).mode = progress.mode := rfl
  unfold moveWord
  rw [mode]
  cases progress.mode with
  | field => rfl
  | typeName => rfl
  | function =>
      obtain ⟨start, stop⟩ : (commandRun span spacing rest).1.start = span.start ∧
          (commandRun span spacing rest).1.stop.byte ≤ inner.length := by
        rw [commandRun_eq]
        exact run_within span spacing within.stop withinRest
      have low : 0 ≤ (commandRun span spacing rest).1.start.byte := by
        rw [start]
        exact within.start
      have same : commandRun (span.shift offset) spacing (Tree.shiftAll offset rest) =
          ((commandRun span spacing rest).1.shift offset, (commandRun span spacing rest).2) := by
        rw [commandRun_eq, commandRun_eq]
        exact run_shift continuesName_shift span spacing rest
      simp only [same, ofCommand_shift shown low stop, afterCommand_shift]
      rfl
  | argument =>
      have same : argumentRun (span.shift offset) spacing (Tree.shiftAll offset rest) =
          ((argumentRun span spacing rest).1.shift offset, (argumentRun span spacing rest).2) := by
        rw [argumentRun_eq, argumentRun_eq]
        exact run_shift continuesArgument_shift span spacing rest
      simp only [shown span within.start within.stop, same]
      split <;> rfl

omit shown in
theorem marksGroup_shift (char : Char) (span : Span) (rest : List Tree) :
    marksGroup char (span.shift offset) (Tree.shiftAll offset rest) = marksGroup char span rest := by
  cases rest with
  | nil => rfl
  | cons tree rest =>
      cases tree with
      | group delimiter next body =>
          have touches : (span.shift offset).stop = (next.shift offset).start ↔
              span.stop = next.start := Location.shift_inj _ _
          simp only [Tree.shiftAll, Tree.shift, marksGroup, touches]
      | _ => rfl

omit shown in
theorem moveSymbol_shift (char : Char) (span : Span) (spacing : Spacing) (rest : List Tree) :
    moveSymbol stream (progress.shift offset) char (span.shift offset) spacing
        (Tree.shiftAll offset rest) =
      relocate offset (Move.shift offset) (moveSymbol stream progress char span spacing rest) := by
  unfold moveSymbol
  rw [marksGroup_shift]
  split
  next => rfl
  next =>
    apply relocate_bind (ofSymbol_shift progress.mode char span spacing)
    intro effect _
    rfl

omit shown in
theorem innerMode_shift (delimiter : Delimiter) :
    innerMode stream (progress.shift offset) delimiter = innerMode stream progress delimiter := by
  simp only [innerMode, Progress.shift, Option.isSome_map]
  rfl

omit shown in
theorem groupToken_shift (delimiter : Delimiter) (span : Span) (body : List Token) :
    groupToken (progress.shift offset) delimiter (span.shift offset) (shiftAll offset body) =
      (groupToken progress delimiter span body).shift offset := by
  simp only [groupToken, Progress.shift, shift]
  cases progress.atSign <;> rfl

theorem move_shift {tree : Tree} (within : tree.Within inner.length)
    (withinRest : Tree.WithinAll inner.length rest)
    (inside : ∀ stream, classifyInside outer stream (tree.shift offset) =
      relocate offset (shiftAll offset) (classifyInside inner stream tree)) :
    move outer stream (progress.shift offset) (tree.shift offset) (Tree.shiftAll offset rest) =
      relocate offset (Move.shift offset) (move inner stream progress tree rest) := by
  cases tree with
  | word span spacing =>
      rw [Tree.Within] at within
      simp only [Tree.shift, move, moveWord_shift shown within spacing withinRest]
      rfl
  | symbol char span spacing =>
      simp only [Tree.shift, move]
      exact moveSymbol_shift char span spacing rest
  | number span =>
      simp only [Tree.shift, move]
      rfl
  | string span parts =>
      have held := inside stream
      simp only [Tree.shift] at held
      simp only [Tree.shift, move]
      apply relocate_bind held
      intro tokens _
      rfl
  | group delimiter span body =>
      have held := inside ⟨innerMode stream progress delimiter, delimiter⟩
      simp only [Tree.shift] at held
      simp only [Tree.shift, move, innerMode_shift]
      apply relocate_bind held
      intro tokens _
      rw [groupToken_shift]
      rfl

end Texts

mutual

theorem classifyInside_shift (shown : Span.Shows offset inner outer) (tree : Tree)
    (within : tree.Within inner.length) (stream : Stream) :
    classifyInside outer stream (tree.shift offset) =
      relocate offset (shiftAll offset) (classifyInside inner stream tree) := by
  cases tree with
  | string span parts =>
      rw [Tree.Within] at within
      simp only [Tree.shift, classifyInside]
      exact interpolate_shift shown parts within.2
  | group delimiter span body =>
      rw [Tree.Within] at within
      simp only [Tree.shift, classifyInside]
      exact classify_shift shown body within.2 stream (.start stream.start) 0
  | word | symbol | number =>
      simp only [Tree.shift, classifyInside]
      rfl

theorem classify_shift (shown : Span.Shows offset inner outer) (trees : List Tree)
    (within : Tree.WithinAll inner.length trees) (stream : Stream) (progress : Progress) (skip : Nat) :
    classify outer stream (progress.shift offset) skip (Tree.shiftAll offset trees) =
      relocate offset (shiftAll offset) (classify inner stream progress skip trees) := by
  cases trees with
  | nil =>
      rw [Tree.shiftAll, classify_nil, classify_nil]
      rfl
  | cons tree rest =>
      rw [Tree.WithinAll] at within
      rw [Tree.shiftAll]
      cases skip with
      | succ skip =>
          rw [classify_skip, classify_skip]
          exact classify_shift shown rest within.2 stream progress skip
      | zero =>
          rw [classify_cons, classify_cons]
          apply relocate_bind
            (move_shift shown within.1 within.2 (classifyInside_shift shown tree within.1))
          intro made _
          apply relocate_bind (classify_shift shown rest within.2 stream made.progress made.skip)
          intro tokens _
          simp only [Move.shift, ← shiftAll_append]
          rfl

theorem interpolate_shift (shown : Span.Shows offset inner outer) (trees : List Tree)
    (within : Tree.WithinAll inner.length trees) :
    interpolate outer (Tree.shiftAll offset trees) =
      relocate offset (shiftAll offset) (interpolate inner trees) := by
  cases trees with
  | nil =>
      simp only [Tree.shiftAll, interpolate]
      rfl
  | cons tree rest =>
      rw [Tree.WithinAll] at within
      rw [Tree.shiftAll]
      have others := interpolate_shift shown rest within.2
      cases tree with
      | word span spacing =>
          simp only [Tree.shift, interpolate]
          apply relocate_bind others
          intro tokens _
          rfl
      | symbol | number | string =>
          simp only [Tree.shift, interpolate]
          rfl
      | group delimiter span body =>
          cases delimiter with
          | paren =>
              have held := classifyInside_shift shown _ within.1 ⟨.function, .paren⟩
              simp only [Tree.shift] at held
              simp only [Tree.shift, interpolate]
              apply relocate_bind held
              intro inside _
              apply relocate_bind others
              intro tokens _
              rfl
          | brace =>
              have names := variableRun_shift offset none body
              rw [Option.map_none] at names
              simp only [Tree.shift, interpolate, names, Tree.shiftAll_drop]
              cases body.drop (variableRun none body).2 with
              | nil =>
                  apply relocate_bind others
                  intro tokens _
                  rfl
              | cons extra more =>
                  simp only [Tree.shiftAll, Tree.span_shift]
                  rfl
          | bracket =>
              simp only [Tree.shift, interpolate]
              rfl

end

end Token

end ScopeLint
