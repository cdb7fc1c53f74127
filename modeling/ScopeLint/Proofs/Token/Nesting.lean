import ScopeLint.Proofs.Token.Grouping
import ScopeLint.Proofs.Tree.Bounds

/-!
How tokens lie in the text. The tokens of a stream follow one another without overlap, none is empty,
and what a string or group holds lies within its span, at every depth.
-/

namespace ScopeLint

structure Span.Encloses (outer inner : Span) : Prop where
  start : outer.start.byte ≤ inner.start.byte
  stop : inner.stop.byte ≤ outer.stop.byte

namespace Tree

variable {source : Text} {start stop : Int} {trees : List Tree} {tree : Tree}

theorem Level.covers (level : Level source start stop trees) :
    ∀ tree ∈ trees, start ≤ tree.span.start.byte ∧ tree.span.start.byte < tree.span.stop.byte ∧
      tree.span.stop.byte ≤ stop ∧ Covers source tree := by
  induction trees generalizing start with
  | nil => simp
  | cons first rest induction =>
      rw [Level] at level
      obtain ⟨low, width, -, covers, -, later⟩ := level
      have bound := later.le
      intro tree member
      rcases List.mem_cons.mp member with rfl | behind
      · exact ⟨low, width, bound, covers⟩
      · obtain ⟨after, others⟩ := induction later tree behind
        exact ⟨by omega, others⟩

theorem Level.pair {first second : Tree} (level : Level source start stop (first :: second :: trees)) :
    start ≤ first.span.start.byte ∧ first.span.start.byte < first.span.stop.byte ∧
      first.span.stop.byte ≤ second.span.start.byte ∧
      second.span.start.byte < second.span.stop.byte ∧
      Level source second.span.stop.byte stop trees := by
  rw [Level, Level] at level
  obtain ⟨low, width, -, -, -, after, filled, -, -, -, later⟩ := level
  exact ⟨low, width, after, filled, later⟩

theorem Parts.covers (parts : Parts source start stop trees) :
    ∀ tree ∈ trees, start ≤ tree.span.start.byte ∧ tree.span.start.byte < tree.span.stop.byte ∧
      tree.span.stop.byte ≤ stop ∧ Covers source tree := by
  induction trees generalizing start with
  | nil => simp
  | cons first rest induction =>
      rw [Parts] at parts
      obtain ⟨low, width, covers, later⟩ := parts
      have bound := later.le
      intro tree member
      rcases List.mem_cons.mp member with rfl | behind
      · exact ⟨low, width, bound, covers⟩
      · obtain ⟨after, others⟩ := induction later tree behind
        exact ⟨by omega, others⟩

theorem Covers.body {delimiter : Delimiter} {span : Span} {body : List Tree}
    (covers : Covers source (.group delimiter span body)) :
    ∃ first last, span.start.byte < first ∧ last < span.stop.byte ∧ Level source first last body := by
  rw [Covers] at covers
  obtain ⟨first, last, before, behind, inside⟩ := covers
  have low := Text.lt_of_between (List.cons_ne_nil _ _) before
  have high := Text.lt_of_between (List.cons_ne_nil _ _) behind
  exact ⟨first, last, by omega, by omega, inside⟩

theorem Covers.parts {span : Span} {parts : List Tree} (covers : Covers source (.string span parts)) :
    ∃ first last, span.start.byte < first ∧ last < span.stop.byte ∧ Parts source first last parts := by
  rw [Covers] at covers
  obtain ⟨first, last, opening, closing, quotes, before, behind, inside⟩ := covers
  have low := Text.lt_of_between quotes.ne_nil.1 before
  have high := Text.lt_of_between quotes.ne_nil.2 behind
  exact ⟨first, last, by omega, by omega, inside⟩

end Tree

namespace Token

mutual

/-- What a token holds lies within its span, and so on at every depth. -/
def Nests : Token → Prop
  | string span parts => Nested span.start.byte span.stop.byte parts
  | group _ _ span body => Nested span.start.byte span.stop.byte body
  | _ => True

/-- The tokens of a stream follow one another between two bytes. -/
def Nested (start stop : Int) : List Token → Prop
  | [] => start ≤ stop
  | token :: rest => start ≤ token.span.start.byte ∧ token.span.start.byte < token.span.stop.byte ∧
      token.Nests ∧ Nested token.span.stop.byte stop rest

end

section Order

variable {start stop : Int} {tokens : List Token} {token : Token}

theorem Nested.le (nested : Nested start stop tokens) : start ≤ stop := by
  induction tokens generalizing start with
  | nil =>
      rw [Nested] at nested
      exact nested
  | cons token rest induction =>
      rw [Nested] at nested
      obtain ⟨low, width, -, later⟩ := nested
      have bound := induction later
      omega

theorem Nested.widen (nested : Nested start stop tokens) {low high : Int} (before : low ≤ start)
    (behind : stop ≤ high) : Nested low high tokens := by
  induction tokens generalizing start low with
  | nil =>
      rw [Nested] at nested ⊢
      omega
  | cons token rest induction =>
      rw [Nested] at nested ⊢
      obtain ⟨first, width, nests, later⟩ := nested
      exact ⟨by omega, width, nests, induction later (Int.le_refl _)⟩

theorem Nested.append {middle : Int} {others : List Token} (nested : Nested start middle tokens)
    (later : Nested middle stop others) : Nested start stop (tokens ++ others) := by
  induction tokens generalizing start with
  | nil =>
      rw [Nested] at nested
      exact later.widen nested (Int.le_refl _)
  | cons token rest induction =>
      rw [Nested] at nested
      obtain ⟨low, width, nests, others⟩ := nested
      rw [List.cons_append, Nested]
      exact ⟨low, width, nests, induction others⟩

theorem Nested.bounds (nested : Nested start stop tokens) :
    ∀ token ∈ tokens, start ≤ token.span.start.byte ∧ token.span.start.byte < token.span.stop.byte ∧
      token.span.stop.byte ≤ stop := by
  induction tokens generalizing start with
  | nil => simp
  | cons first rest induction =>
      rw [Nested] at nested
      obtain ⟨low, width, -, later⟩ := nested
      have bound := later.le
      intro token member
      rcases List.mem_cons.mp member with rfl | behind
      · exact ⟨low, width, bound⟩
      · obtain ⟨after, others⟩ := induction later token behind
        exact ⟨by omega, others⟩

theorem Nested.pairwise (nested : Nested start stop tokens) :
    tokens.Pairwise fun left right => left.span.stop.byte ≤ right.span.start.byte := by
  induction tokens generalizing start with
  | nil => exact .nil
  | cons first rest induction =>
      rw [Nested] at nested
      obtain ⟨-, -, -, later⟩ := nested
      exact .cons (fun token behind => (later.bounds token behind).1) (induction later)

end Order

section Runs

variable {source : Text} {start stop : Int} {trees run others behind : List Tree} {token : Token}
  {span : Span} {first : Tree}

theorem start_spanThrough (span : Span) (others : List Tree) :
    (spanThrough span others).start = span.start := by
  induction others generalizing span with
  | nil => rfl
  | cons next others induction => exact induction (span.through next.span)

theorem exists_stop_spanThrough (first : Tree) (others : List Tree) :
    ∃ last ∈ first :: others, (spanThrough first.span others).stop = last.span.stop := by
  have through (span : Span) (ends : span.stop = first.span.stop) :
      ∃ last ∈ first :: others, (spanThrough span others).stop = last.span.stop := by
    induction others generalizing first span with
    | nil => exact ⟨first, List.mem_cons_self, ends⟩
    | cons next others induction =>
        obtain ⟨last, member, same⟩ := induction next (span.through next.span) rfl
        exact ⟨last, List.mem_cons_of_mem _ member, same⟩
  exact through first.span rfl

theorem level_spanThrough (level : Tree.Level source span.stop.byte stop (others ++ behind)) :
    Tree.Level source (spanThrough span others).stop.byte stop behind ∧
      span.stop.byte ≤ (spanThrough span others).stop.byte ∧
      ∀ tree ∈ others, span.stop.byte ≤ tree.span.start.byte ∧
        tree.span.start.byte < tree.span.stop.byte ∧
        tree.span.stop.byte ≤ (spanThrough span others).stop.byte := by
  induction others generalizing span with
  | nil => exact ⟨level, Int.le_refl _, by simp⟩
  | cons next others induction =>
      rw [List.cons_append, Tree.Level] at level
      obtain ⟨low, width, -, -, -, later⟩ := level
      have ends : (span.through next.span).stop = next.span.stop := rfl
      rw [← ends] at later
      obtain ⟨level, reaches, each⟩ := induction later
      rw [ends] at reaches each
      have same : spanThrough span (next :: others) = spanThrough (span.through next.span) others := rfl
      rw [same]
      refine ⟨level, by omega, ?_⟩
      intro tree member
      rcases List.mem_cons.mp member with rfl | among
      · exact ⟨low, width, reaches⟩
      · obtain ⟨after, filled, before⟩ := each tree among
        exact ⟨by omega, filled, before⟩

theorem span_ofCommand (source : Text) (span : Span) : (ofCommand source span).span = span := by
  unfold ofCommand
  dsimp only
  repeat' split
  all_goals rfl

theorem Forms.exists_spanThrough (forms : Forms source run token) :
    ∃ first others, run = first :: others ∧ token.span = spanThrough first.span others := by
  cases forms with
  | command => exact ⟨_, _, rfl, span_ofCommand source _⟩
  | _ => exact ⟨_, _, rfl, rfl⟩

structure Spanned (source : Text) (start stop : Int) (run behind : List Tree) (token : Token) :
    Prop where
  low : start ≤ token.span.start.byte
  width : token.span.start.byte < token.span.stop.byte
  encloses : ∀ tree ∈ run, token.span.Encloses tree.span
  level : Tree.Level source token.span.stop.byte stop behind

theorem Forms.spanned (forms : Forms source run token)
    (level : Tree.Level source start stop (run ++ behind)) :
    Spanned source start stop run behind token := by
  obtain ⟨first, others, rfl, same⟩ := forms.exists_spanThrough
  rw [List.cons_append, Tree.Level] at level
  obtain ⟨low, width, -, -, -, later⟩ := level
  obtain ⟨level, reaches, each⟩ := level_spanThrough later
  have begins := start_spanThrough first.span others
  rw [← same] at level reaches each begins
  refine ⟨begins ▸ low, by rw [begins]; omega, ?_, level⟩
  intro tree member
  rcases List.mem_cons.mp member with rfl | among
  · exact ⟨Int.le_of_eq (by rw [begins]), reaches⟩
  · obtain ⟨after, -, before⟩ := each tree among
    exact ⟨by rw [begins]; omega, before⟩

end Runs

section Depth

variable {source : Text}

mutual

theorem nests_of_forms {run : List Tree} {token : Token} (forms : Forms source run token)
    (covers : ∀ tree ∈ run, tree.Covers source)
    (encloses : ∀ tree ∈ run, token.span.Encloses tree.span) : token.Nests := by
  match forms with
  | .string inside =>
      obtain ⟨first, last, low, high, parts⟩ := (covers _ List.mem_cons_self).parts
      rw [Nests]
      exact (nested_of_interpolates inside parts).widen (Int.le_of_lt low) (Int.le_of_lt high)
  | .group inside =>
      obtain ⟨first, last, low, high, level⟩ := (covers _ List.mem_cons_self).body
      rw [Nests]
      exact (nested_of_regroups inside level).widen (Int.le_of_lt low) (Int.le_of_lt high)
  | .marked _ inside =>
      -- The token starts at the sign, the stream behind the bracket.
      have member {sign held : Tree} : held ∈ [sign, held] := List.mem_cons_of_mem _ List.mem_cons_self
      obtain ⟨first, last, low, high, level⟩ := (covers _ member).body
      obtain ⟨before, behind⟩ := encloses _ member
      rw [Nests]
      simp only [Tree.span, Token.span] at before behind
      exact (nested_of_regroups inside level).widen (by omega) (by omega)
  | .command _ _ =>
      unfold ofCommand
      dsimp only
      repeat' split
      all_goals simp [Nests]
  | .field | .membership | .argument _ _ | .dollar | .bare | .flag | .doubleColon | .symbol
  | .lineBreak | .number => simp [Nests]

theorem nested_of_regroups {start stop : Int} {trees : List Tree} {tokens : List Token}
    (groups : Regroups source trees tokens) (level : Tree.Level source start stop trees) :
    Nested start stop tokens := by
  match groups with
  | .nil =>
      rw [Nested]
      exact level.le
  | .cons forms more =>
      obtain ⟨low, width, encloses, later⟩ := forms.spanned level
      rw [Nested]
      refine ⟨low, width, nests_of_forms forms ?_ encloses, nested_of_regroups more later⟩
      intro tree member
      exact (level.covers tree (List.mem_append_left _ member)).2.2.2
  | .operator absorbs more =>
      obtain ⟨low, width, after, filled, later⟩ := level.pair
      rw [Nested]
      refine ⟨low, width, by simp [Nests], (nested_of_regroups more later).widen ?_ (Int.le_refl _)⟩
      exact Int.le_trans after (Int.le_of_lt filled)
  | .continuation more =>
      obtain ⟨low, width, after, filled, later⟩ := level.pair
      refine (nested_of_regroups more later).widen ?_ (Int.le_refl _)
      omega

theorem nested_of_interpolates {start stop : Int} {parts : List Tree} {pieces : List Token}
    (groups : Interpolates source parts pieces) (level : Tree.Parts source start stop parts) :
    Nested start stop pieces := by
  match groups with
  | .nil =>
      rw [Nested]
      exact level.le
  | .variable more =>
      rw [Tree.Parts] at level
      obtain ⟨low, width, -, later⟩ := level
      rw [Nested]
      exact ⟨low, width, by simp [Nests], nested_of_interpolates more later⟩
  | .block inside more | .expression inside more =>
      rw [Tree.Parts] at level
      obtain ⟨low, width, covers, later⟩ := level
      obtain ⟨first, last, before, behind, body⟩ := covers.body
      rw [Nested]
      refine ⟨low, width, ?_, nested_of_interpolates more later⟩
      rw [Nests]
      exact (nested_of_regroups inside body).widen (Int.le_of_lt before) (Int.le_of_lt behind)

end

/-- The tokens of a source text lie in it one after the other, at every depth. -/
theorem nested_of_read {tokens : List Token} (accepted : read source = .ok tokens) :
    Nested 0 source.length tokens := by
  obtain ⟨trees, lexed, made⟩ := Except.exists_of_bind accepted
  have level := (Tree.laid_of_read lexed).level (List.suffix_refl _)
  rw [Text.placeOf_glyphs] at level
  exact nested_of_regroups (regroups_of_stream made) level

end Depth

end Token

end ScopeLint
