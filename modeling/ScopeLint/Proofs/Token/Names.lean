import ScopeLint.Proofs.Text.Ascii
import ScopeLint.Proofs.Text.Split
import ScopeLint.Proofs.Token.Moves
import ScopeLint.Proofs.Tree.Bounds
import ScopeLint.Script.Basic

/-!
How names are spelled. A command name is made of the characters of words, dashes, pluses and dots,
a field name of the characters of words only, wherever in a script they stand. The same then holds
of all that a script defines and uses. Carriage returns belong to no character and are left out.
-/

namespace ScopeLint

namespace Text

open Utf8

/-- Behind characters that were all written in full, a cut never goes through a sequence. -/
theorem visible_append (front : Text) {behind : Text} (whole : replacement ∉ behind.visible) :
    (front ++ behind).visible = front.visible ++ behind.visible := by
  have apart : ∀ byte ∈ behind.head?, isTail byte = false := by
    intro byte first
    cases behind with
    | nil => simp at first
    | cons head rest =>
        obtain rfl : head = byte := by simpa using first
        refine Bool.eq_false_iff.mpr fun tail => whole ?_
        simp only [isTail, Bool.and_eq_true, decide_eq_true_eq] at tail
        -- A byte that continues a sequence starts none.
        have alone : lead head rest = bad head := by
          have notPair (second : UInt8) : isPair head second = false := by
            simp only [isPair, Bool.and_eq_false_iff, decide_eq_false_iff_not]
            grind
          have notTriple (second third : UInt8) : isTriple head second third = false := by
            simp only [isTriple, Bool.and_eq_false_iff, decide_eq_false_iff_not]
            grind
          have notQuadruple (second third fourth : UInt8) :
              isQuadruple head second third fourth = false := by
            simp only [isQuadruple, Bool.and_eq_false_iff, decide_eq_false_iff_not]
            grind
          unfold lead
          rw [if_neg (UInt8.not_lt.mpr tail.1)]
          repeat' split
          all_goals simp_all
        obtain ⟨left, -, pieces⟩ := pieces_cons head rest
        rw [visible, chars, pieces, alone]
        simp [bad, replacement]
  simp only [visible, chars, pieces_append front apart, List.map_append, List.filter_append]

theorem between_append (source : Text) {start middle stop : Int} (before : start ≤ middle)
    (behind : middle ≤ stop) (whole : replacement ∉ source.between middle stop) :
    source.between start stop = source.between start middle ++ source.between middle stop := by
  rw [between, slice_append source (Int.toNat_le_toNat before) (Int.toNat_le_toNat behind),
    visible_append _ whole]
  rfl

end Text

theorem Span.mem_visible_slice {span : Span} {source : Text} {char : Char}
    (member : char ∈ (span.slice source).visible) :
    char ∈ source.between span.start.byte span.stop.byte := by
  rw [slice] at member
  split at member
  · simp [Text.visible, Text.chars, Text.pieces, Utf8.piecesFrom] at member
  · exact member

namespace Token

def continuesCommand (char : Char) : Bool :=
  Tree.continuesWord char || char = '-' || char = '+' || char = '.'

mutual

/-- Command and field names hold the characters of such names only, at every depth. -/
def Named (source : Text) : Token → Prop
  | cmdlet span => ∀ char ∈ (span.slice source).visible, continuesCommand char = true
  | field span => ∀ char ∈ (span.slice source).visible, Tree.continuesWord char = true
  | string _ parts => NamedAll source parts
  | group _ _ _ body => NamedAll source body
  | _ => True

def NamedAll (source : Text) : List Token → Prop
  | [] => True
  | token :: rest => token.Named source ∧ NamedAll source rest

end

variable {source : Text}

theorem namedAll_iff (tokens : List Token) :
    NamedAll source tokens ↔ ∀ token ∈ tokens, token.Named source := by
  induction tokens with
  | nil => simp [NamedAll]
  | cons token rest induction => simp [NamedAll, induction]

mutual

theorem namedAll_of_innerStreams (token : Token) (named : token.Named source) :
    ∀ stream ∈ token.innerStreams, NamedAll source stream := by
  intro stream member
  cases token with
  | string span parts =>
      rw [innerStreams] at member
      rw [Named] at named
      split at member
      · simp at member
      · rcases List.mem_cons.mp member with rfl | inner
        · exact named
        · exact namedAll_of_innerStreamsOf parts named stream inner
  | group delimiter sign span body =>
      rw [innerStreams] at member
      rw [Named] at named
      split at member
      · simp at member
      · rcases List.mem_cons.mp member with rfl | inner
        · exact named
        · exact namedAll_of_innerStreamsOf body named stream inner
  | _ => simp [innerStreams] at member

theorem namedAll_of_innerStreamsOf (tokens : List Token) (named : NamedAll source tokens) :
    ∀ stream ∈ innerStreamsOf tokens, NamedAll source stream := by
  intro stream member
  cases tokens with
  | nil => simp [innerStreamsOf] at member
  | cons token rest =>
      rw [innerStreamsOf] at member
      rw [NamedAll] at named
      rcases List.mem_append.mp member with first | later
      · exact namedAll_of_innerStreams token named.1 stream first
      · exact namedAll_of_innerStreamsOf rest named.2 stream later

end

section Run

theorem continuesCommand_of_word {char : Char} (continues : Tree.continuesWord char = true) :
    continuesCommand char = true := by
  simp [continuesCommand, continues]

def SpelledCommand (source : Text) (start stop : Int) : Prop :=
  start ≤ stop ∧ ∀ char ∈ source.between start stop, continuesCommand char = true

theorem SpelledCommand.trans {start middle stop : Int} (first : SpelledCommand source start middle)
    (second : SpelledCommand source middle stop) : SpelledCommand source start stop := by
  have whole : Utf8.replacement ∉ source.between middle stop := by
    intro member
    exact absurd (second.2 _ member) (by decide +kernel)
  refine ⟨Int.le_trans first.1 second.1, ?_⟩
  rw [Text.between_append source first.1 second.1 whole]
  intro char member
  exact (List.mem_append.mp member).elim (first.2 char) (second.2 char)

theorem spelled_of_covers {tree : Tree} (covers : tree.Covers source)
    (ordered : tree.span.start.byte ≤ tree.span.stop.byte)
    (runsOn : (tree.isWord || tree.isSymbol '-' || tree.isSymbol '+' || tree.isSymbol '.') = true) :
    SpelledCommand source tree.span.start.byte tree.span.stop.byte := by
  refine ⟨ordered, ?_⟩
  intro char member
  cases tree with
  | word span spacing =>
      rw [Tree.Covers] at covers
      obtain ⟨first, rest, text, starts, continues⟩ := covers.text
      rw [Tree.span, text] at member
      apply continuesCommand_of_word
      rcases List.mem_cons.mp member with rfl | later
      · exact Tree.continuesWord_of_starts starts
      · exact continues char later
  | symbol mark span spacing =>
      rw [Tree.Covers] at covers
      rw [Tree.span, covers.1, List.mem_singleton] at member
      subst member
      simp only [Tree.isWord, Tree.isSymbol, Bool.false_or, Bool.or_eq_true,
        decide_eq_true_eq] at runsOn
      rcases runsOn with (rfl | rfl) | rfl <;> decide +kernel
  | number | string | group => simp [Tree.isWord, Tree.isSymbol] at runsOn

theorem spelled_commandRun {stop : Int} (rest : List Tree) (span : Span) (spacing : Spacing)
    (spelled : SpelledCommand source span.start.byte span.stop.byte)
    (touches : spacing = .joined → ∃ next ∈ rest.head?, span.stop.byte = next.span.start.byte)
    (level : Tree.Level source span.stop.byte stop rest) :
    SpelledCommand source (commandRun span spacing rest).1.start.byte
      (commandRun span spacing rest).1.stop.byte := by
  induction rest generalizing span spacing with
  | nil => simpa only [commandRun] using spelled
  | cons tree rest induction =>
      rw [Tree.Level] at level
      obtain ⟨-, width, -, covers, meets, later⟩ := level
      rw [commandRun]
      split
      next continues =>
        simp only [Bool.and_eq_true, decide_eq_true_eq] at continues
        obtain ⟨next, first, adjacent⟩ := touches continues.1
        obtain rfl : tree = next := by simpa using first
        apply induction (span.through tree.span) tree.spacing
        · refine spelled.trans ?_
          rw [adjacent]
          exact spelled_of_covers covers (Int.le_of_lt width) continues.2
        · exact fun joined => (meets.spaced.mp joined).2
        · exact later
      next => exact spelled

end Run

section Classifier

variable {stream : Stream} {progress : Progress}

theorem named_ofCommand {span : Span} (spelled : SpelledCommand source span.start.byte span.stop.byte) :
    (ofCommand source span).Named source := by
  unfold ofCommand
  dsimp only
  repeat' split
  all_goals simp only [Named]
  intro char member
  exact spelled.2 char (Span.mem_visible_slice member)

theorem named_moveWord {start stop : Int} {span : Span} {spacing : Spacing} {rest : List Tree}
    (level : Tree.Level source start stop (.word span spacing :: rest)) :
    NamedAll source (moveWord source progress span spacing rest).tokens := by
  rw [Tree.Level] at level
  obtain ⟨-, width, -, covers, meets, later⟩ := level
  have word : (Token.field span).Named source := by
    rw [Named]
    intro char member
    rw [Tree.Covers] at covers
    obtain ⟨first, others, text, starts, continues⟩ := covers.text
    have shown := Span.mem_visible_slice member
    rw [text] at shown
    rcases List.mem_cons.mp shown with rfl | inside
    · exact Tree.continuesWord_of_starts starts
    · exact continues char inside
  have spelled := spelled_commandRun rest span spacing
    (spelled_of_covers covers (Int.le_of_lt width) (by simp [Tree.isWord]))
    (fun joined => (meets.spaced.mp joined).2) later
  unfold moveWord
  split
  · exact (namedAll_iff _).mpr (by simpa using word)
  · exact (namedAll_iff _).mpr (by simpa using word)
  · exact (namedAll_iff _).mpr (by simpa using named_ofCommand spelled)
  · split <;> simp [NamedAll, Named]

theorem named_of_sign {token : Token} (sign : token.kind ∈ signKinds) : token.Named source := by
  cases token with
  | cmdlet | field | string | group => simp [kind, signKinds] at sign
  | _ => simp [Named]

theorem named_variableRun (sign : Option Span) (trees : List Tree) :
    NamedAll source (variableRun sign trees).1 := by
  rw [namedAll_iff]
  exact fun token given => named_of_sign (kind_variableRun sign trees token given)

theorem named_ofSymbol {mode : Mode} {char : Char} {span : Span} {spacing : Spacing}
    {rest : List Tree} {effect : Effect}
    (made : ofSymbol stream mode char span spacing rest = .ok effect) :
    NamedAll source effect.tokens := by
  rw [namedAll_iff]
  exact fun token given => named_of_sign (kind_ofSymbol made token given)

theorem named_move {start stop : Int} {tree : Tree} {rest : List Tree} {made : Move}
    (inside : ∀ stream tokens, classifyInside source stream tree = .ok tokens → NamedAll source tokens)
    (level : Tree.Level source start stop (tree :: rest))
    (moved : move source stream progress tree rest = .ok made) : NamedAll source made.tokens := by
  cases tree with
  | word span spacing =>
      obtain rfl := Except.ok.inj moved
      exact named_moveWord level
  | symbol char span spacing =>
      simp only [move, moveSymbol] at moved
      split at moved
      · obtain rfl := Except.ok.inj moved
        simp [NamedAll]
      · obtain ⟨effect, done, same⟩ := Except.exists_of_bind moved
        obtain rfl := Except.ok.inj same
        exact named_ofSymbol done
  | number span =>
      obtain rfl := Except.ok.inj moved
      simp [NamedAll, Named]
  | string span parts =>
      obtain ⟨tokens, done, same⟩ := Except.exists_of_bind moved
      obtain rfl := Except.ok.inj same
      simpa [NamedAll, Named] using inside _ _ done
  | group delimiter span body =>
      obtain ⟨tokens, done, same⟩ := Except.exists_of_bind moved
      obtain rfl := Except.ok.inj same
      simpa [NamedAll, Named, groupToken] using inside _ _ done

mutual

theorem named_classifyInside (tree : Tree) (covers : tree.Covers source) (stream : Stream)
    (tokens : List Token) (made : classifyInside source stream tree = .ok tokens) :
    NamedAll source tokens := by
  cases tree with
  | string span parts =>
      rw [classifyInside] at made
      rw [Tree.Covers] at covers
      obtain ⟨first, last, -, -, -, -, -, held⟩ := covers
      exact named_interpolate parts held tokens made
  | group delimiter span body =>
      rw [classifyInside] at made
      rw [Tree.Covers] at covers
      obtain ⟨first, last, -, -, held⟩ := covers
      exact named_classify body held stream _ 0 tokens made
  | word | symbol | number =>
      rw [classifyInside] at made
      · obtain rfl := Except.ok.inj made
        simp [NamedAll]
      all_goals simp

theorem named_classify {start stop : Int} (trees : List Tree)
    (level : Tree.Level source start stop trees) (stream : Stream) (progress : Progress)
    (skip : Nat) (tokens : List Token)
    (made : classify source stream progress skip trees = .ok tokens) : NamedAll source tokens := by
  cases trees with
  | nil =>
      rw [classify_nil] at made
      obtain rfl := Except.ok.inj made
      simp [NamedAll]
  | cons tree rest =>
      have parts := level
      rw [Tree.Level] at parts
      obtain ⟨-, -, -, covers, -, later⟩ := parts
      cases skip with
      | succ skip =>
          rw [classify_skip] at made
          exact named_classify rest later stream progress skip tokens made
      | zero =>
          rw [classify_cons] at made
          obtain ⟨step, moved, made⟩ := Except.exists_of_bind made
          obtain ⟨others, continued, same⟩ := Except.exists_of_bind made
          obtain rfl := Except.ok.inj same
          have first := named_move (named_classifyInside tree covers) level moved
          have second := named_classify rest later stream _ _ others continued
          rw [namedAll_iff] at first second ⊢
          exact List.forall_mem_append.mpr ⟨first, second⟩

theorem named_interpolate {start stop : Int} (trees : List Tree)
    (parts : Tree.Parts source start stop trees) (tokens : List Token)
    (made : interpolate source trees = .ok tokens) : NamedAll source tokens := by
  cases trees with
  | nil =>
      rw [interpolate] at made
      obtain rfl := Except.ok.inj made
      simp [NamedAll]
  | cons tree rest =>
      rw [Tree.Parts] at parts
      obtain ⟨-, -, covers, later⟩ := parts
      have others := named_interpolate rest later
      cases tree with
      | word span spacing =>
          rw [interpolate] at made
          obtain ⟨tokens, continued, same⟩ := Except.exists_of_bind made
          obtain rfl := Except.ok.inj same
          simpa [NamedAll, Named] using others tokens continued
      | symbol | number | string => simp [interpolate] at made
      | group delimiter span body =>
          cases delimiter with
          | paren =>
              rw [interpolate] at made
              obtain ⟨inner, done, made⟩ := Except.exists_of_bind made
              obtain ⟨tokens, continued, same⟩ := Except.exists_of_bind made
              obtain rfl := Except.ok.inj same
              have held := named_classifyInside _ covers _ inner done
              simpa [NamedAll, Named, held] using others tokens continued
          | brace =>
              rw [interpolate] at made
              dsimp only at made
              split at made
              · simp at made
              · obtain ⟨tokens, continued, same⟩ := Except.exists_of_bind made
                obtain rfl := Except.ok.inj same
                simpa [NamedAll, Named, named_variableRun] using others tokens continued
          | bracket => simp [interpolate] at made

end

theorem named_of_read {tokens : List Token} (accepted : read source = .ok tokens) :
    NamedAll source tokens := by
  obtain ⟨trees, lexed, made⟩ := Except.exists_of_bind accepted
  have level := (Tree.laid_of_read lexed).level (List.suffix_refl _)
  exact named_classify trees level _ _ _ tokens made

end Classifier

end Token

end ScopeLint
