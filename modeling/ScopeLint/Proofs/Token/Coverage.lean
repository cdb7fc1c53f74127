import ScopeLint.Proofs.Text.Split
import ScopeLint.Proofs.Token.Nesting
import ScopeLint.Proofs.Token.Readings

/-!
The classifier neither loses nor repeats anything. In every stream of an accepted text each lexeme is in
the span of one token and of no other; only a line break behind an operator, and a backtick with the
line break it continues, may be in none. Strings and groups stay what they are.
-/

namespace ScopeLint.Token

def isTick (tree : Tree) : Bool := tree.isSymbol '\x60' && tree.spacing = .joined

/-- Lexemes behind which a line break may vanish. -/
def takesLineBreak (tree : Tree) : Bool := tree.isSymbol '|' || tree.isSymbol '+' || isTick tree

/-- Lexemes that may be in no token, by what stands directly before and behind them. -/
inductive Droppable (before after : List Tree) : Tree → Prop
  | lineBreak {span : Span} {spacing : Spacing}
      (taken : ∃ last ∈ before.getLast?, takesLineBreak last = true) :
      Droppable before after (.symbol '\n' span spacing)
  | tick {span : Span} (continues : nextIsSymbol '\n' after = true) :
      Droppable before after (.symbol '\x60' span .joined)

def isContainer (token : Token) : Bool := token.kind = .group || token.kind = .string

/-- A string or group and its token. That of a group may start with the at sign directly in front. -/
inductive Kept : Tree → Token → Prop
  | string {span : Span} {parts : List Tree} {pieces : List Token} :
      Kept (.string span parts) (.string span pieces)
  | group {delimiter : Delimiter} {span : Span} {body : List Tree} {inner : List Token} :
      Kept (.group delimiter span body) (.group delimiter none span inner)
  | marked {delimiter : Delimiter} {sign span : Span} {body : List Tree} {inner : List Token}
      (touches : sign.stop = span.start) :
      Kept (.group delimiter span body) (.group delimiter (some .atSign) (sign.through span) inner)

/-- The lexemes of a stream are distributed over its tokens. -/
structure Distributes (trees : List Tree) (tokens : List Token) : Prop where
  ordered : tokens.Pairwise fun left right => left.span.stop.byte ≤ right.span.start.byte
  filled : ∀ token ∈ tokens, token.span.start.byte < token.span.stop.byte
  each : ∀ before tree after, trees = before ++ tree :: after →
    (∃! token, token ∈ tokens ∧ token.span.Encloses tree.span) ∨
      Droppable before after tree ∧ ∀ token ∈ tokens, ¬ token.span.Encloses tree.span
  edges : ∀ token ∈ tokens, (∃ tree ∈ trees, tree.span.start = token.span.start) ∧
    ∃ tree ∈ trees, tree.span.stop = token.span.stop
  names : ∀ token ∈ tokens, ∀ name ∈ token.name?, token.span.Encloses name
  kept : List.Forall₂ Kept (trees.filter isHolder) (tokens.filter isContainer)

variable {source : Text} {start stop : Int} {trees run rest before after : List Tree}
  {tokens : List Token} {token : Token} {tree : Tree}

section Each

theorem not_encloses_behind {outer inner : Span} (filled : inner.start.byte < inner.stop.byte)
    (behind : outer.stop.byte ≤ inner.start.byte) : ¬ outer.Encloses inner := by
  rintro ⟨-, within⟩
  omega

theorem not_encloses_before {outer inner : Span} (filled : inner.start.byte < inner.stop.byte)
    (before : inner.stop.byte ≤ outer.start.byte) : ¬ outer.Encloses inner := by
  rintro ⟨within, -⟩
  omega

theorem Nested.unique (nested : Nested start stop tokens) {span : Span}
    (filled : span.start.byte < span.stop.byte) {left right : Token} (first : left ∈ tokens)
    (second : right ∈ tokens) (one : left.span.Encloses span) (other : right.span.Encloses span) :
    left = right := by
  induction tokens generalizing start with
  | nil => cases first
  | cons token rest induction =>
      rw [Nested] at nested
      obtain ⟨-, -, -, later⟩ := nested
      have apart : token.span.Encloses span → ∀ behind ∈ rest, ¬ behind.span.Encloses span := by
        intro here behind member
        have after := (later.bounds behind member).1
        have ends := here.stop
        exact not_encloses_before filled (by omega)
      rcases List.mem_cons.mp first with rfl | behind
      · rcases List.mem_cons.mp second with rfl | behind
        · rfl
        · exact absurd other (apart one right behind)
      · rcases List.mem_cons.mp second with rfl | also
        · exact absurd one (apart other left behind)
        · exact induction later behind also

theorem Droppable.behind (front : List Tree) (droppable : Droppable before after tree) :
    Droppable (front ++ before) after tree := by
  cases droppable with
  | lineBreak taken =>
      obtain ⟨last, final, takes⟩ := taken
      refine .lineBreak ⟨last, ?_, takes⟩
      rw [List.getLast?_append, Option.mem_def.mp final]
      rfl
  | tick continues => exact .tick continues

def Goes (tokens : List Token) (before after : List Tree) (tree : Tree) : Prop :=
  (∃ token ∈ tokens, token.span.Encloses tree.span) ∨
    Droppable before after tree ∧ ∀ token ∈ tokens, ¬ token.span.Encloses tree.span

theorem Goes.behind (front : List Tree) (goes : Goes tokens before after tree)
    (filled : tree.span.start.byte < tree.span.stop.byte)
    (later : token.span.stop.byte ≤ tree.span.start.byte) :
    Goes (token :: tokens) (front ++ before) after tree := by
  rcases goes with ⟨token, member, encloses⟩ | ⟨droppable, outside⟩
  · exact .inl ⟨token, List.mem_cons_of_mem _ member, encloses⟩
  · exact .inr ⟨droppable.behind front, List.forall_mem_cons.mpr
      ⟨not_encloses_behind filled later, outside⟩⟩

/-- Behind two lexemes no token of the others reaches back to them. -/
theorem Nested.not_encloses (nested : Nested start stop tokens) {span : Span}
    (filled : span.start.byte < span.stop.byte) (before : span.stop.byte ≤ start) :
    ∀ token ∈ tokens, ¬ token.span.Encloses span := by
  intro token member
  have after := (nested.bounds token member).1
  exact not_encloses_before filled (by omega)

theorem split_pair {first second : Tree} (split : first :: second :: rest = before ++ tree :: after) :
    before = [] ∧ tree = first ∧ after = second :: rest ∨
      before = [first] ∧ tree = second ∧ after = rest ∨
        ∃ between, before = [first, second] ++ between ∧ rest = between ++ tree :: after := by
  match before, split with
  | [], split =>
      obtain ⟨same, behind⟩ := List.cons.inj split
      exact .inl ⟨rfl, same.symm, behind.symm⟩
  | [head], split =>
      obtain ⟨same, split⟩ := List.cons.inj split
      obtain ⟨here, behind⟩ := List.cons.inj split
      exact .inr (.inl ⟨by rw [same], here.symm, behind.symm⟩)
  | head :: next :: between, split =>
      obtain ⟨same, split⟩ := List.cons.inj split
      obtain ⟨also, behind⟩ := List.cons.inj split
      exact .inr (.inr ⟨between, by rw [same, also]; rfl, behind⟩)

theorem Regroups.goes {start stop : Int} {trees : List Tree} {tokens : List Token}
    (groups : Regroups source trees tokens) (level : Tree.Level source start stop trees)
    (before : List Tree) (tree : Tree) (after : List Tree) (split : trees = before ++ tree :: after) :
    Goes tokens before after tree := by
  match groups with
  | .nil => simp at split
  | .cons forms more =>
      obtain ⟨-, -, encloses, later⟩ := forms.spanned level
      rcases List.append_eq_append_cons split with ⟨others, rfl, -⟩ | ⟨between, rfl, same⟩
      · exact .inl ⟨_, List.mem_cons_self, encloses tree (by simp)⟩
      · obtain ⟨low, filled, -, -⟩ := later.covers tree (by simp [same])
        exact (more.goes later between tree after same).behind _ filled low
  | .operator absorbs more =>
      obtain ⟨-, -, low, width, later⟩ := level.pair
      rcases split_pair split with ⟨rfl, rfl, rfl⟩ | ⟨rfl, rfl, rfl⟩ | ⟨between, rfl, same⟩
      · exact .inl ⟨_, List.mem_cons_self, ⟨Int.le_refl _, Int.le_refl _⟩⟩
      · refine .inr ⟨.lineBreak ⟨_, rfl, ?_⟩, List.forall_mem_cons.mpr ⟨?_, ?_⟩⟩
        · rcases absorbs with rfl | rfl <;> rfl
        · exact not_encloses_behind width low
        · exact (nested_of_regroups more later).not_encloses width (Int.le_refl _)
      · obtain ⟨behind, filled, -, -⟩ := later.covers tree (by simp [same])
        refine (more.goes later between tree after same).behind _ filled ?_
        exact Int.le_trans low (Int.le_trans (Int.le_of_lt width) behind)
  | .continuation more =>
      obtain ⟨-, first, low, width, later⟩ := level.pair
      have nested := nested_of_regroups more later
      rcases split_pair split with ⟨rfl, rfl, rfl⟩ | ⟨rfl, rfl, rfl⟩ | ⟨between, rfl, same⟩
      · exact .inr ⟨.tick rfl, nested.not_encloses first (Int.le_trans low (Int.le_of_lt width))⟩
      · exact .inr ⟨.lineBreak ⟨_, rfl, rfl⟩, nested.not_encloses width (Int.le_refl _)⟩
      · rcases more.goes later between tree after same with carried | ⟨droppable, outside⟩
        · exact .inl carried
        · exact .inr ⟨droppable.behind _, outside⟩

end Each

section Sides

theorem Forms.edges (forms : Forms source run token) :
    (∃ tree ∈ run, tree.span.start = token.span.start) ∧
      ∃ tree ∈ run, tree.span.stop = token.span.stop := by
  obtain ⟨first, others, rfl, same⟩ := forms.exists_spanThrough
  obtain ⟨last, member, ends⟩ := exists_stop_spanThrough first others
  rw [same]
  exact ⟨⟨first, List.mem_cons_self, (start_spanThrough _ _).symm⟩, last, member, ends.symm⟩

theorem Regroups.edges {trees : List Tree} {tokens : List Token} (groups : Regroups source trees tokens) :
    ∀ token ∈ tokens, (∃ tree ∈ trees, tree.span.start = token.span.start) ∧
      ∃ tree ∈ trees, tree.span.stop = token.span.stop := by
  -- A token has its edges among more lexemes as well.
  have among {fewer more : List Tree} (part : fewer ⊆ more) {token : Token}
      (edges : (∃ tree ∈ fewer, tree.span.start = token.span.start) ∧
        ∃ tree ∈ fewer, tree.span.stop = token.span.stop) :
      (∃ tree ∈ more, tree.span.start = token.span.start) ∧
        ∃ tree ∈ more, tree.span.stop = token.span.stop := by
    obtain ⟨⟨first, begins, starts⟩, last, ends, stops⟩ := edges
    exact ⟨⟨first, part begins, starts⟩, last, part ends, stops⟩
  intro token member
  match groups with
  | .nil => cases member
  | .cons forms more =>
      rcases List.mem_cons.mp member with rfl | later
      · exact among (List.subset_append_left _ _) forms.edges
      · exact among (List.subset_append_right _ _) (more.edges token later)
  | .operator absorbs more =>
      rcases List.mem_cons.mp member with rfl | later
      · exact ⟨⟨_, List.mem_cons_self, rfl⟩, _, List.mem_cons_self, rfl⟩
      · exact among (List.subset_append_right [_, _] _) (more.edges token later)
  | .continuation more => exact among (List.subset_append_right [_, _] _) (more.edges token member)

theorem name_ofCommand (source : Text) (span : Span) :
    ∀ name ∈ (ofCommand source span).name?, name = (ofCommand source span).span := by
  unfold ofCommand
  dsimp only
  repeat' split
  all_goals simp [name?, Token.span]

theorem Forms.name (forms : Forms source run token) :
    ∀ name ∈ token.name?, name = token.span ∨ ∃ tree ∈ run, name = tree.span := by
  intro name named
  cases forms with
  | command => exact .inl (name_ofCommand _ _ name named)
  | field | bare => exact .inl (Option.some.inj named).symm
  | dollar | flag =>
      obtain rfl := Option.some.inj named
      exact .inr ⟨_, List.mem_cons_of_mem _ List.mem_cons_self, rfl⟩
  | _ => cases named

theorem Regroups.names {start stop : Int} {trees : List Tree} {tokens : List Token}
    (groups : Regroups source trees tokens) (level : Tree.Level source start stop trees) :
    ∀ token ∈ tokens, ∀ name ∈ token.name?, token.span.Encloses name := by
  intro token member name named
  match groups with
  | .nil => cases member
  | .cons forms more =>
      obtain ⟨-, -, encloses, later⟩ := forms.spanned level
      rcases List.mem_cons.mp member with rfl | behind
      · rcases forms.name name named with rfl | ⟨tree, among, rfl⟩
        · exact ⟨Int.le_refl _, Int.le_refl _⟩
        · exact encloses tree among
      · exact more.names later token behind name named
  | .operator absorbs more =>
      obtain ⟨-, -, -, -, later⟩ := level.pair
      rcases List.mem_cons.mp member with rfl | behind
      · cases named
      · exact more.names later token behind name named
  | .continuation more =>
      obtain ⟨-, -, -, -, later⟩ := level.pair
      exact more.names later token member name named

theorem not_isContainer_ofCommand (source : Text) (span : Span) :
    isContainer (ofCommand source span) = false := by
  unfold ofCommand
  dsimp only
  repeat' split
  all_goals rfl

theorem filter_isHolder_of_continues {continues : Tree → Bool} {others : List Tree}
    (continued : ∀ tree ∈ others, continues tree = true)
    (unheld : ∀ tree, continues tree = true → isHolder tree = false) : others.filter isHolder = [] :=
  List.filter_eq_nil_iff.mpr fun tree member holds =>
    Bool.false_ne_true ((unheld tree (continued tree member)).symm.trans holds)

theorem Forms.kept (forms : Forms source run token) :
    List.Forall₂ Kept (run.filter isHolder) ([token].filter isContainer) := by
  have plain {tree : Tree} (holds : isHolder tree = false) (others : List Tree) :
      (tree :: others).filter isHolder = others.filter isHolder :=
    List.filter_cons_of_neg (by simp [holds])
  cases forms with
  | command touching continued =>
      have nothing := filter_isHolder_of_continues continued fun tree named => by
        cases tree <;> first | rfl | cases named
      rw [plain rfl, nothing, List.filter_cons_of_neg (by simp [not_isContainer_ofCommand])]
      exact .nil
  | argument touching continued =>
      have nothing := filter_isHolder_of_continues continued fun tree named => by
        cases tree <;> first | rfl | cases named
      rw [plain rfl, nothing]
      exact .nil
  | string => exact .cons .string .nil
  | group => exact .cons .group .nil
  | marked touches => exact .cons (.marked touches) .nil
  | _ => exact .nil

theorem Regroups.kept {trees : List Tree} {tokens : List Token} (groups : Regroups source trees tokens) :
    List.Forall₂ Kept (trees.filter isHolder) (tokens.filter isContainer) := by
  match groups with
  | .nil => exact .nil
  | @Regroups.cons _ run rest token tokens forms more =>
      rw [List.filter_append, ← List.singleton_append, List.filter_append]
      exact List.rel_append forms.kept more.kept
  | .operator absorbs more => exact more.kept
  | .continuation more => exact more.kept

end Sides

theorem distributes {start stop : Int} (groups : Regroups source trees tokens)
    (level : Tree.Level source start stop trees) : Distributes trees tokens := by
  have nested := nested_of_regroups groups level
  refine ⟨nested.pairwise, fun token member => (nested.bounds token member).2.1, ?_, groups.edges,
    groups.names level, groups.kept⟩
  intro before tree after split
  obtain ⟨-, filled, -, -⟩ := level.covers tree (by simp [split])
  rcases groups.goes level before tree after split with ⟨token, member, encloses⟩ | dropped
  · refine .inl ⟨token, ⟨member, encloses⟩, ?_⟩
    rintro other ⟨among, also⟩
    exact nested.unique filled among member also encloses
  · exact .inr dropped

theorem Reading.exists_level {stream : Stream} (reading : Reading source stream trees tokens) :
    ∃ start stop, Tree.Level source start stop trees := by
  induction reading with
  | file lexed reads => exact ⟨_, _, (Tree.laid_of_read lexed).level (List.suffix_refl _)⟩
  | group outer place reads induction =>
      obtain ⟨start, stop, level⟩ := induction
      have member := place.suffix.subset List.mem_cons_self
      obtain ⟨first, last, -, -, inside⟩ := (level.covers _ member).2.2.2.body
      exact ⟨first, last, inside⟩
  | expression outer string part reads induction =>
      obtain ⟨start, stop, level⟩ := induction
      obtain ⟨first, last, -, -, parts⟩ := (level.covers _ string).2.2.2.parts
      obtain ⟨opening, closing, -, -, inside⟩ := (parts.covers _ part).2.2.2.body
      exact ⟨opening, closing, inside⟩

/-- In every stream of an accepted text the lexemes are distributed over the tokens, none being lost or
taken twice. The streams are that of the file, those of all groups and those of all expressions in
strings, and their tokens are the ones that the text is read as. -/
theorem lexemes_distributed {all : List Token} (accepted : read source = .ok all) :
    (∃ trees, Tree.read source = .ok trees ∧ Reading source .file trees all) ∧
    ∀ stream trees tokens, Reading source stream trees tokens →
      Distributes trees tokens ∧ (tokens ≠ [] → tokens ∈ streams all) ∧
      (∀ delimiter span body, .group delimiter span body ∈ trees →
        ∃ mode inner, Reading source ⟨mode, delimiter⟩ body inner) ∧
      ∀ span parts inside body, .string span parts ∈ trees → .group .paren inside body ∈ parts →
        ∃ inner, Reading source ⟨.function, .paren⟩ body inner := by
  constructor
  · obtain ⟨trees, lexed, made⟩ := Except.exists_of_bind accepted
    exact ⟨trees, lexed, .file lexed made⟩
  · intro stream trees tokens reading
    obtain ⟨start, stop, level⟩ := reading.exists_level
    refine ⟨distributes (regroups_of_stream reading.reads) level, reading.shown accepted, ?_, ?_⟩
    · intro delimiter span body member
      exact reading.exists_group member
    · intro span parts inside body string part
      exact reading.exists_expression string part

/-- A list behind an at sign, a line break behind a bar, and a string with an expression that goes on
behind a backtick. -/
def pipeline : Text := "A @(1) |\nB \"$(C \x60\nD)\""

def pipelineBody : List Tree :=
  [.word ⟨⟨14, 2, 6⟩, ⟨15, 2, 7⟩⟩ .alone, .symbol '\x60' ⟨⟨16, 2, 8⟩, ⟨17, 2, 9⟩⟩ .joined,
    .symbol '\n' ⟨⟨17, 2, 9⟩, ⟨18, 3, 1⟩⟩ .joined, .word ⟨⟨18, 3, 1⟩, ⟨19, 3, 2⟩⟩ .alone]

def pipelineInner : List Token :=
  [.cmdlet ⟨⟨14, 2, 6⟩, ⟨15, 2, 7⟩⟩, .word ⟨⟨18, 3, 1⟩, ⟨19, 3, 2⟩⟩]

def pipelineParts : List Tree := [.group .paren ⟨⟨13, 2, 5⟩, ⟨20, 3, 3⟩⟩ pipelineBody]

def pipelineTrees : List Tree :=
  [.word ⟨⟨0, 1, 1⟩, ⟨1, 1, 2⟩⟩ .alone, .symbol '@' ⟨⟨2, 1, 3⟩, ⟨3, 1, 4⟩⟩ .joined,
    .group .paren ⟨⟨3, 1, 4⟩, ⟨6, 1, 7⟩⟩ [.number ⟨⟨4, 1, 5⟩, ⟨5, 1, 6⟩⟩],
    .symbol '|' ⟨⟨7, 1, 8⟩, ⟨8, 1, 9⟩⟩ .joined, .symbol '\n' ⟨⟨8, 1, 9⟩, ⟨9, 2, 1⟩⟩ .joined,
    .word ⟨⟨9, 2, 1⟩, ⟨10, 2, 2⟩⟩ .alone, .string ⟨⟨11, 2, 3⟩, ⟨21, 3, 4⟩⟩ pipelineParts]

def pipelineTokens : List Token :=
  [.cmdlet ⟨⟨0, 1, 1⟩, ⟨1, 1, 2⟩⟩,
    .group .paren (some .atSign) ⟨⟨2, 1, 3⟩, ⟨6, 1, 7⟩⟩ [.number ⟨⟨4, 1, 5⟩, ⟨5, 1, 6⟩⟩],
    .symbol '|' ⟨⟨7, 1, 8⟩, ⟨8, 1, 9⟩⟩, .cmdlet ⟨⟨9, 2, 1⟩, ⟨10, 2, 2⟩⟩,
    .string ⟨⟨11, 2, 3⟩, ⟨21, 3, 4⟩⟩
      [.group .paren (some .dollar) ⟨⟨13, 2, 5⟩, ⟨20, 3, 3⟩⟩ pipelineInner]]

theorem pipeline_lexemes_distributed :
    read pipeline = .ok pipelineTokens ∧ Distributes pipelineTrees pipelineTokens ∧
      Reading pipeline ⟨.function, .paren⟩ pipelineBody pipelineInner ∧
      Distributes pipelineBody pipelineInner ∧ pipelineInner ∈ streams pipelineTokens := by
  have accepted : read pipeline = .ok pipelineTokens := rfl
  have file : Reading pipeline .file pipelineTrees pipelineTokens := .file rfl rfl
  have string : .string ⟨⟨11, 2, 3⟩, ⟨21, 3, 4⟩⟩ pipelineParts ∈ pipelineTrees :=
    List.mem_of_getElem? (i := 6) rfl
  have inner : Reading pipeline ⟨.function, .paren⟩ pipelineBody pipelineInner :=
    .expression file string List.mem_cons_self rfl
  have distributed := (lexemes_distributed accepted).2
  obtain ⟨held, shown, -, -⟩ := distributed _ _ _ inner
  exact ⟨accepted, (distributed _ _ _ file).1, inner, held, shown (List.cons_ne_nil _ _)⟩

end ScopeLint.Token
