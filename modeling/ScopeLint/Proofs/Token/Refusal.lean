import ScopeLint.Proofs.Token.Acceptance
import ScopeLint.Proofs.Token.Nesting
import ScopeLint.Proofs.Tree.Shape

/-!
Exactly which lexemes are refused. Two rules decide, and both are about lexemes alone: a backtick that
touches something touches a line break, and a block of a string holds nothing or a name with its scopes.
The first is a rule for all code, the second for all blocks; modes play no part in either.
-/

namespace ScopeLint.Token

/-- Each backtick of a stream that touches what follows is directly followed by a line break. -/
def TicksEndLines (trees : List Tree) : Prop :=
  ∀ before span after, trees = before ++ .symbol '\x60' span .joined :: after →
    nextIsSymbol '\n' after = true

/-- Words with colons between them, each lexeme but the last touching the next one. -/
inductive IsScopedName : List Tree → Prop
  | word {name : Span} {spacing : Spacing} : IsScopedName [.word name spacing]
  | scope {name colon : Span} {rest : List Tree} (more : IsScopedName rest) :
      IsScopedName (.word name .joined :: .symbol ':' colon .joined :: rest)

/-- The streams of code: the lexemes of a text, those of every group, and those of every expression in
a string. -/
inductive Code (trees : List Tree) : List Tree → Prop
  | top : Code trees trees
  | group {stream body : List Tree} {delimiter : Delimiter} {span : Span} (outer : Code trees stream)
      (member : .group delimiter span body ∈ stream) : Code trees body
  | expression {stream parts body : List Tree} {span inside : Span} (outer : Code trees stream)
      (string : .string span parts ∈ stream) (part : .group .paren inside body ∈ parts) :
      Code trees body

/-- All streams, those of the blocks in strings included. -/
inductive Inner (trees : List Tree) : List Tree → Prop
  | top : Inner trees trees
  | group {stream body : List Tree} {delimiter : Delimiter} {span : Span} (outer : Inner trees stream)
      (member : .group delimiter span body ∈ stream) : Inner trees body
  | part {stream parts body : List Tree} {delimiter : Delimiter} {span inside : Span}
      (outer : Inner trees stream) (string : .string span parts ∈ stream)
      (part : .group delimiter inside body ∈ parts) : Inner trees body

/-- What stands between the curly brackets of a block in a string. -/
def Block (trees body : List Tree) : Prop :=
  ∃ stream parts span inside, Inner trees stream ∧ .string span parts ∈ stream ∧
    .group .brace inside body ∈ parts

structure Acceptable (trees : List Tree) : Prop where
  ticks : ∀ stream, Code trees stream → TicksEndLines stream
  blocks : ∀ body, Block trees body → body = [] ∨ IsScopedName body

variable {source : Text} {stream own : Stream} {progress : Progress} {trees parts body rest : List Tree}
  {tree : Tree}

section Names

theorem variableRun_scopedName (named : IsScopedName body) (sign : Option Span) :
    body.drop (variableRun sign body).2 = [] := by
  induction named generalizing sign with
  | word =>
      rw [variableRun_single (by simp)]
      rfl
  | scope more induction => simpa [variableRun] using induction none

theorem isScopedName_of_variableRun {start stop : Int} (level : Tree.Level source start stop body)
    (all : body.drop (variableRun none body).2 = []) : body = [] ∨ IsScopedName body := by
  generalize same : (none : Option Span) = sign at all
  induction sign, body using variableRun.induct generalizing start with
  | case1 sign name colon rest tokens count run induction =>
      rw [run] at induction
      simp only [variableRun, run, List.drop_succ_cons] at all
      rw [Tree.Level, Tree.Level] at level
      obtain ⟨-, -, -, -, -, -, -, -, -, meets, later⟩ := level
      -- The colon touches something, so another name follows.
      obtain ⟨-, next, first, -⟩ := meets.spaced.mp rfl
      rcases induction later rfl all with rfl | more
      · cases first
      · exact .inr (.scope more)
  | case2 sign name spacing rest other =>
      rw [variableRun_single other, List.drop_succ_cons, List.drop_zero] at all
      rw [all]
      exact .inr .word
  | case3 trees sign other =>
      have nothing : variableRun sign trees = ([], 0) := by
        rw [variableRun]
        exact other
      rw [nothing] at all
      exact .inl all

end Names

section Streams

inductive Readable (source : Text) : Tree → Prop
  | word {span : Span} {spacing : Spacing} : Readable source (.word span spacing)
  | block {span : Span} {body : List Tree} (all : body.drop (variableRun none body).2 = []) :
      Readable source (.group .brace span body)
  | expression {span : Span} {body : List Tree}
      (reads : ∃ inner, ReadsAs source ⟨.function, .paren⟩ body inner) :
      Readable source (.group .paren span body)

theorem readable_block_iff {span : Span} :
    Readable source (.group .brace span body) ↔ body.drop (variableRun none body).2 = [] := by
  constructor
  · intro readable
    cases readable with
    | block all => exact all
  · exact .block

theorem readable_expression_iff {span : Span} :
    Readable source (.group .paren span body) ↔
      ∃ inner, ReadsAs source ⟨.function, .paren⟩ body inner := by
  constructor
  · intro readable
    cases readable with
    | expression reads => exact reads
  · exact .expression

theorem interpolate_accepts_iff (parts : List Tree) :
    (∃ pieces, interpolate source parts = .ok pieces) ↔ ∀ part ∈ parts, Readable source part := by
  induction parts with
  | nil => simp [interpolate]
  | cons part more induction =>
      rw [List.forall_mem_cons, ← induction]
      cases part with
      | word span spacing =>
          rw [interpolate, Except.exists_map_iff]
          exact (and_iff_right .word).symm
      | symbol | number | string =>
          simp only [interpolate, reduceCtorEq, exists_const, false_iff, not_and]
          rintro ⟨⟩
      | group delimiter span body =>
          cases delimiter with
          | bracket =>
              simp only [interpolate, reduceCtorEq, exists_const, false_iff, not_and]
              rintro ⟨⟩
          | brace =>
              rw [interpolate, readable_block_iff]
              dsimp only
              split
              next extra others left =>
                simp only [left, reduceCtorEq, exists_const, false_and]
              next all =>
                rw [Except.exists_map_iff]
                exact (and_iff_right all).symm
          | paren =>
              rw [interpolate, classifyInside, readable_expression_iff, Except.exists_bind_iff]
              constructor
              · rintro ⟨inner, done, others⟩
                exact ⟨⟨inner, done⟩, Except.exists_map_iff.mp others⟩
              · rintro ⟨⟨inner, done⟩, others⟩
                exact ⟨inner, done, Except.exists_map_iff.mpr others⟩

theorem moveSymbol_accepts_iff {char : Char} {span : Span} {spacing : Spacing} :
    (∃ made, moveSymbol stream progress char span spacing rest = .ok made) ↔
      (char = '\x60' → spacing = .joined → nextIsSymbol '\n' rest = true) := by
  unfold moveSymbol
  split
  next marks =>
    refine iff_of_true ⟨_, rfl⟩ ?_
    rintro rfl
    unfold marksGroup at marks
    split at marks
    · simp at marks
    · cases marks
  next => rw [Except.exists_map_iff, ofSymbol_accepts_iff]

theorem not_takenAlong_tick {span : Span} {spacing : Spacing} {after : List Tree} :
    ¬ TakenAlong source stream trees (.symbol '\x60' span spacing) after := by
  intro taken
  rcases taken.companion_or_bare with companion | ⟨bare, -⟩
  · cases companion
  · cases bare

theorem TicksEndLines.tail (ticks : TicksEndLines (tree :: rest)) : TicksEndLines rest :=
  fun before span after split => ticks (tree :: before) span after (congrArg (tree :: ·) split)

/-- What a stream and its lexemes need to be read, with what is inside them. -/
structure Follows (source : Text) (trees : List Tree) : Prop where
  ticks : TicksEndLines trees
  inside : ∀ tree ∈ trees, ∃ own, ∃ tokens, classifyInside source own tree = .ok tokens

theorem Follows.tail (follows : Follows source (tree :: rest)) : Follows source rest :=
  ⟨follows.ticks.tail, fun next member => follows.inside next (List.mem_cons_of_mem _ member)⟩

theorem Follows.exists_move (follows : Follows source (tree :: rest)) (stream : Stream)
    (progress : Progress) : ∃ made, move source stream progress tree rest = .ok made := by
  obtain ⟨own, held⟩ := follows.inside tree List.mem_cons_self
  cases tree with
  | word | number => exact ⟨_, rfl⟩
  | symbol char span spacing =>
      refine moveSymbol_accepts_iff.mpr ?_
      rintro rfl rfl
      exact follows.ticks [] span rest rfl
  | string | group => exact Except.exists_map_iff.mpr (classifyInside_accepts _ own _ held)

theorem Follows.accepted (follows : Follows source trees) (stream : Stream) (progress : Progress)
    (skip : Nat) : ∃ tokens, classify source stream progress skip trees = .ok tokens := by
  induction trees generalizing progress skip with
  | nil => exact ⟨[], classify_nil _ _ _ _⟩
  | cons tree rest induction =>
      cases skip with
      | succ skip =>
          rw [classify_skip]
          exact induction follows.tail progress skip
      | zero =>
          obtain ⟨made, moved⟩ := follows.exists_move stream progress
          rw [classify_of_move moved, Except.exists_map_iff]
          exact induction follows.tail made.progress made.skip

theorem ReadsAs.follows {tokens : List Token} (reads : ReadsAs source stream trees tokens) :
    Follows source trees := by
  constructor
  · intro before span after split
    rcases exists_place reads split with ⟨front, seen, place⟩ | taken
    · obtain ⟨made, others, moved, -, -⟩ := place.exists_move reads
      exact moveSymbol_accepts_iff.mp ⟨made, moved⟩ rfl rfl
    · -- No run goes over a backtick, so its own move decides.
      exact absurd taken not_takenAlong_tick
  · intro tree member
    cases tree with
    | word | symbol | number => exact ⟨stream, [], by simp [classifyInside]⟩
    | string span parts =>
        obtain ⟨front, seen, after, place⟩ := exists_place_of_holder reads rfl member
        obtain ⟨pieces, done, -⟩ := place.exists_parts reads
        exact ⟨stream, pieces, by rw [classifyInside, done]⟩
    | group delimiter span body =>
        obtain ⟨front, seen, after, place⟩ := exists_place_of_holder reads rfl member
        obtain ⟨inner, behind, done, -⟩ := place.exists_body reads
        exact ⟨_, inner, by rw [classifyInside]; exact done⟩

/-- A stream is accepted if its backticks end lines and what its lexemes hold is accepted, whatever has
been seen before. -/
theorem stream_accepts_iff (stream : Stream) (progress : Progress) (trees : List Tree) :
    (∃ tokens, classify source stream progress 0 trees = .ok tokens) ↔ Follows source trees := by
  constructor
  · intro accepted
    obtain ⟨tokens, reads⟩ := classify_accepts trees stream stream progress (.start stream.start) 0 0
      (by simp) accepted
    exact ReadsAs.follows reads
  · exact fun follows => follows.accepted stream progress 0

end Streams

section Depth

theorem Code.trans {outer inner : List Tree} (first : Code trees outer) (second : Code outer inner) :
    Code trees inner := by
  induction second with
  | top => exact first
  | group _ member induction => exact induction.group member
  | expression _ string part induction => exact induction.expression string part

theorem Code.inner (code : Code trees body) : Inner trees body := by
  induction code with
  | top => exact .top
  | group _ member induction => exact induction.group member
  | expression _ string part induction => exact induction.part string part

theorem Inner.trans {outer inner : List Tree} (first : Inner trees outer) (second : Inner outer inner) :
    Inner trees inner := by
  induction second with
  | top => exact first
  | group _ member induction => exact induction.group member
  | part _ string part induction => exact induction.part string part

/-- The two rules for what stands inside a text that keeps them. -/
theorem Acceptable.code (acceptable : Acceptable trees) (code : Code trees body) : Acceptable body := by
  constructor
  · exact fun stream deeper => acceptable.ticks stream (code.trans deeper)
  · rintro block ⟨stream, parts, span, inside, deeper, string, part⟩
    exact acceptable.blocks block ⟨stream, parts, span, inside, code.inner.trans deeper, string, part⟩

theorem sizeOf_body {delimiter : Delimiter} {span : Span} (member : .group delimiter span body ∈ trees) :
    sizeOf body < sizeOf trees := by
  have smaller := List.sizeOf_lt_of_mem member
  rw [Tree.group.sizeOf_spec] at smaller
  omega

theorem sizeOf_parts {span : Span} (member : .string span parts ∈ trees) :
    sizeOf parts < sizeOf trees := by
  have smaller := List.sizeOf_lt_of_mem member
  rw [Tree.string.sizeOf_spec] at smaller
  omega

theorem Acceptable.follows (acceptable : Acceptable trees) (shaped : Tree.AllShaped trees) :
    Follows source trees := by
  -- By the size of the stream, since what a lexeme holds is smaller.
  induction size : sizeOf trees using Nat.strong_induction_on generalizing trees with
  | _ count induction =>
      have reads (stream : Stream) {body : List Tree} (code : Code trees body)
          (smaller : sizeOf body < sizeOf trees) (shaped : Tree.AllShaped body) :
          ∃ tokens, ReadsAs source stream body tokens :=
        (induction _ (size ▸ smaller) (acceptable.code code) shaped rfl).accepted stream _ 0
      refine ⟨acceptable.ticks trees .top, ?_⟩
      intro tree member
      have shape := shaped.mem tree member
      cases tree with
      | word | symbol | number => exact ⟨.file, [], by simp [classifyInside]⟩
      | group delimiter span body =>
          rw [Tree.Shaped] at shape
          obtain ⟨inner, done⟩ := reads .file (Code.top.group member) (sizeOf_body member) shape
          exact ⟨.file, inner, by rw [classifyInside]; exact done⟩
      | string span parts =>
          rw [Tree.Shaped] at shape
          have readable : ∀ part ∈ parts, Readable source part := by
            intro part among
            cases shape.2 part among with
            | word => exact .word
            | @group delimiter inside body round =>
                cases delimiter with
                | bracket => exact absurd rfl round
                | brace =>
                    have block : Block trees body := ⟨trees, parts, span, inside, .top, member, among⟩
                    rcases acceptable.blocks body block with rfl | named
                    · exact .block rfl
                    · exact .block (variableRun_scopedName named none)
                | paren =>
                    have held := shape.1.mem _ among
                    rw [Tree.Shaped] at held
                    exact .expression (reads _ (Code.top.expression member among)
                      ((sizeOf_body among).trans (sizeOf_parts member)) held)
          obtain ⟨pieces, done⟩ := (interpolate_accepts_iff parts).mpr readable
          exact ⟨.file, pieces, by rw [classifyInside, done]⟩

theorem Follows.readable (follows : Follows source trees) {span : Span}
    (string : .string span parts ∈ trees) : ∀ part ∈ parts, Readable source part := by
  obtain ⟨own, pieces, done⟩ := follows.inside _ string
  rw [classifyInside] at done
  exact (interpolate_accepts_iff parts).mp ⟨pieces, done⟩

theorem Follows.code (follows : Follows source trees) (code : Code trees body) : Follows source body := by
  induction code with
  | top => exact follows
  | group _ member induction =>
      obtain ⟨own, inner, done⟩ := induction.inside _ member
      rw [classifyInside] at done
      exact (stream_accepts_iff _ _ _).mp ⟨inner, done⟩
  | expression _ string part induction =>
      cases induction.readable string _ part with
      | expression reads =>
          obtain ⟨inner, reads⟩ := reads
          exact reads.follows

theorem Code.exists_level {start stop : Int} (level : Tree.Level source start stop trees)
    (code : Code trees body) : ∃ first last, Tree.Level source first last body := by
  induction code with
  | top => exact ⟨start, stop, level⟩
  | group _ member induction =>
      obtain ⟨first, last, outer⟩ := induction
      obtain ⟨opening, closing, -, -, inside⟩ := (outer.covers _ member).2.2.2.body
      exact ⟨opening, closing, inside⟩
  | expression _ string part induction =>
      obtain ⟨first, last, outer⟩ := induction
      obtain ⟨opening, closing, -, -, parts⟩ := (outer.covers _ string).2.2.2.parts
      obtain ⟨low, high, -, -, inside⟩ := (parts.covers _ part).2.2.2.body
      exact ⟨low, high, inside⟩

theorem IsScopedName.plain (named : IsScopedName body) : ∀ tree ∈ body, isHolder tree = false := by
  induction named with
  | word => exact List.forall_mem_singleton.mpr rfl
  | scope _ induction => exact List.forall_mem_cons.mpr ⟨rfl, List.forall_mem_cons.mpr ⟨rfl, induction⟩⟩

/-- In accepted code a group of a string is an expression, or a block with nothing or a name in it. -/
theorem Follows.part {start stop : Int} (follows : Follows source trees)
    (level : Tree.Level source start stop trees) {delimiter : Delimiter} {span inside : Span}
    (string : .string span parts ∈ trees) (part : .group delimiter inside body ∈ parts) :
    delimiter = .paren ∨ body = [] ∨ IsScopedName body := by
  cases follows.readable string _ part with
  | expression => exact .inl rfl
  | block all =>
      obtain ⟨opening, closing, -, -, level⟩ := (level.covers _ string).2.2.2.parts
      obtain ⟨low, high, -, -, inside⟩ := (level.covers _ part).2.2.2.body
      exact .inr (isScopedName_of_variableRun inside all)

/-- In accepted code nothing is nested within blocks. -/
theorem Inner.code_or_plain {start stop : Int} (follows : Follows source trees)
    (level : Tree.Level source start stop trees) (inner : Inner trees body) :
    Code trees body ∨ ∀ tree ∈ body, isHolder tree = false := by
  induction inner with
  | top => exact .inl .top
  | group _ member induction =>
      rcases induction with code | plain
      · exact .inl (code.group member)
      · exact absurd (plain _ member) (by simp [isHolder, Tree.kind])
  | part _ string part induction =>
      rcases induction with code | plain
      · obtain ⟨first, last, outer⟩ := code.exists_level level
        rcases (follows.code code).part outer string part with rfl | rfl | named
        · exact .inl (code.expression string part)
        · exact .inr (by simp)
        · exact .inr named.plain
      · exact absurd (plain _ string) (by simp [isHolder, Tree.kind])

/-- Accepted lexemes keep the rules. -/
theorem Follows.acceptable {start stop : Int} (follows : Follows source trees)
    (level : Tree.Level source start stop trees) : Acceptable trees := by
  constructor
  · exact fun stream code => (follows.code code).ticks
  · rintro body ⟨stream, parts, span, inside, inner, string, part⟩
    rcases inner.code_or_plain follows level with code | plain
    · obtain ⟨first, last, outer⟩ := code.exists_level level
      rcases (follows.code code).part outer string part with paren | rule
      · cases paren
      · exact rule
    · exact absurd (plain _ string) (by simp [isHolder, Tree.kind])

end Depth

section Faults

/-- An outcome that fails, if at all, for one of the two causes that the rules are about. -/
def FailsByRule {Value : Type} (outcome : Except SyntaxError Value) : Prop :=
  ∀ error, outcome = .error error → error.fault = .unknownEscape ∨ error.fault = .notAVariable

theorem FailsByRule.ok {Value : Type} (value : Value) : FailsByRule (.ok value) := nofun

theorem FailsByRule.bind {Value Other : Type} {first : Except SyntaxError Value}
    {next : Value → Except SyntaxError Other} (begins : FailsByRule first)
    (ends : ∀ value, FailsByRule (next value)) : FailsByRule (first >>= next) := by
  cases first with
  | error error => exact fun _ failed => begins _ (congrArg Except.error (Except.error.inj failed))
  | ok value => exact ends value

theorem failsByRule_ofSymbol (mode : Mode) (char : Char) (span : Span) (spacing : Spacing)
    (rest : List Tree) : FailsByRule (ofSymbol stream mode char span spacing rest) := by
  rw [ofSymbol_eq]
  repeat' split
  all_goals first
    | exact .ok _
    | exact fun _ failed => .inl (Except.error.inj failed ▸ rfl)

theorem failsByRule_move (inside : ∀ own, FailsByRule (classifyInside source own tree)) :
    FailsByRule (move source stream progress tree rest) := by
  cases tree with
  | word | number => exact .ok _
  | symbol char span spacing =>
      simp only [move, moveSymbol]
      split
      next => exact .ok _
      next => exact (failsByRule_ofSymbol _ _ _ _ _).bind fun _ => .ok _
  | string | group => exact (inside _).bind fun _ => .ok _

mutual

theorem failsByRule_inside (tree : Tree) (shaped : tree.Shaped) (stream : Stream) :
    FailsByRule (classifyInside source stream tree) := by
  cases tree with
  | string span parts =>
      rw [Tree.Shaped] at shaped
      rw [classifyInside]
      exact failsByRule_interpolate parts shaped.1 shaped.2
  | group delimiter span body =>
      rw [Tree.Shaped] at shaped
      rw [classifyInside]
      exact failsByRule_classify body shaped stream _ 0
  | word | symbol | number =>
      rw [classifyInside]
      · exact .ok _
      all_goals simp

theorem failsByRule_classify (trees : List Tree) (shaped : Tree.AllShaped trees) (stream : Stream)
    (progress : Progress) (skip : Nat) : FailsByRule (classify source stream progress skip trees) := by
  cases trees with
  | nil =>
      rw [classify_nil]
      exact .ok _
  | cons tree rest =>
      rw [Tree.AllShaped] at shaped
      have others := failsByRule_classify rest shaped.2 stream
      cases skip with
      | succ skip =>
          rw [classify_skip]
          exact others progress skip
      | zero =>
          rw [classify_cons]
          exact (failsByRule_move (failsByRule_inside tree shaped.1)).bind fun made =>
            (others _ _).bind fun _ => .ok _

theorem failsByRule_interpolate (parts : List Tree) (shaped : Tree.AllShaped parts)
    (fits : ∀ part ∈ parts, part.IsPart) : FailsByRule (interpolate source parts) := by
  cases parts with
  | nil =>
      rw [interpolate]
      exact .ok _
  | cons part more =>
      rw [Tree.AllShaped] at shaped
      obtain ⟨fit, fits⟩ := List.forall_mem_cons.mp fits
      have others : FailsByRule (interpolate source more) :=
        failsByRule_interpolate more shaped.2 fits
      cases part with
      | word span spacing =>
          rw [interpolate]
          exact others.bind fun _ => .ok _
      | symbol | number | string => cases fit
      | group delimiter span body =>
          cases delimiter with
          | bracket =>
              cases fit with
              | group round => exact absurd rfl round
          | brace =>
              rw [interpolate]
              dsimp only
              split
              next => exact fun _ failed => .inr (Except.error.inj failed ▸ rfl)
              next => exact others.bind fun _ => .ok _
          | paren =>
              rw [interpolate]
              exact (failsByRule_inside (.group .paren span body) shaped.1 _).bind fun _ =>
                others.bind fun _ => .ok _

end

end Faults

/-- The lexemes of a text are accepted exactly if they keep the two rules. Whatever mode a stream starts
in and whatever has been seen, the outcome is the same, and no part of a string is ever refused for
being there. -/
theorem acceptance_by_rules (lexed : Tree.read source = .ok trees) :
    ((∃ tokens, ofTrees source trees = .ok tokens) ↔ Acceptable trees) ∧
    (∀ stream progress,
      (∃ tokens, classify source stream progress 0 trees = .ok tokens) ↔ Acceptable trees) ∧
    ∀ stream progress error, classify source stream progress 0 trees = .error error →
      error.fault = .unknownEscape ∨ error.fault = .notAVariable := by
  have level := (Tree.laid_of_read lexed).level (List.suffix_refl _)
  have shaped := Tree.shaped_of_read lexed
  have rules (stream : Stream) (progress : Progress) :
      (∃ tokens, classify source stream progress 0 trees = .ok tokens) ↔ Acceptable trees := by
    rw [stream_accepts_iff]
    exact ⟨fun follows => follows.acceptable level, fun acceptable => acceptable.follows shaped⟩
  exact ⟨rules _ _, rules, fun stream progress => failsByRule_classify trees shaped stream progress 0⟩

def continued : Text := "\"$\x7ba:b\x7d$(D \x60\n)\""

def continuedBlock : List Tree :=
  [.word ⟨⟨3, 1, 4⟩, ⟨4, 1, 5⟩⟩ .joined, .symbol ':' ⟨⟨4, 1, 5⟩, ⟨5, 1, 6⟩⟩ .joined,
    .word ⟨⟨5, 1, 6⟩, ⟨6, 1, 7⟩⟩ .alone]

def continuedBody : List Tree :=
  [.word ⟨⟨9, 1, 10⟩, ⟨10, 1, 11⟩⟩ .alone, .symbol '\x60' ⟨⟨11, 1, 12⟩, ⟨12, 1, 13⟩⟩ .joined,
    .symbol '\n' ⟨⟨12, 1, 13⟩, ⟨13, 2, 1⟩⟩ .alone]

def continuedTrees : List Tree :=
  [.string ⟨⟨0, 1, 1⟩, ⟨15, 2, 3⟩⟩
    [.group .brace ⟨⟨2, 1, 3⟩, ⟨7, 1, 8⟩⟩ continuedBlock,
      .group .paren ⟨⟨8, 1, 9⟩, ⟨14, 2, 2⟩⟩ continuedBody]]

def misplaced : Text := "\"$(A \x60B)\""

def misplacedTrees : List Tree :=
  [.string ⟨⟨0, 1, 1⟩, ⟨9, 1, 10⟩⟩
    [.group .paren ⟨⟨2, 1, 3⟩, ⟨8, 1, 9⟩⟩
      [.word ⟨⟨3, 1, 4⟩, ⟨4, 1, 5⟩⟩ .alone, .symbol '\x60' ⟨⟨5, 1, 6⟩, ⟨6, 1, 7⟩⟩ .joined,
        .word ⟨⟨6, 1, 7⟩, ⟨7, 1, 8⟩⟩ .alone]]]

theorem rules_of_continued_and_misplaced :
    Tree.read continued = .ok continuedTrees ∧ Acceptable continuedTrees ∧
      Tree.read misplaced = .ok misplacedTrees ∧ ¬ Acceptable misplacedTrees := by
  have lexed : Tree.read continued = .ok continuedTrees := rfl
  have wrong : Tree.read misplaced = .ok misplacedTrees := rfl
  have refused : ofTrees misplaced misplacedTrees = .error ⟨.unknownEscape, ⟨5, 1, 6⟩⟩ := rfl
  refine ⟨lexed, (acceptance_by_rules lexed).1.mp ⟨_, rfl⟩, wrong, fun acceptable => ?_⟩
  obtain ⟨tokens, accepted⟩ := (acceptance_by_rules wrong).1.mpr acceptable
  rw [refused] at accepted
  cases accepted

end ScopeLint.Token
