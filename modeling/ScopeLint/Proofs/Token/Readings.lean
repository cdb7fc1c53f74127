import ScopeLint.Proofs.Token.Acts
import ScopeLint.Proofs.Token.Lines

/-!
The streams of a source text and the places in them. A place lies between two moves of the
classifier; every lexeme of a stream either is at such a place or has been taken along by a lexeme
before it, and every token is given by the move at some place. A reading is a stream of the source
as the classifier meets it: the file, the body of a group, or an expression in a string.
-/

namespace ScopeLint.Token

section Places

variable {source : Text} {stream : Stream} {trees left rest after : List Tree} {tree : Tree}
  {tokens front : List Token} {progress : Progress}

/-- The places of a stream: the tokens given so far, what has been seen, and the lexemes left. -/
inductive Reaches (source : Text) (stream : Stream) (trees : List Tree) :
    List Token → Progress → List Tree → Prop
  | start : Reaches source stream trees [] (.start stream.start) trees
  | next {front : List Token} {progress : Progress} {tree : Tree} {rest : List Tree} {made : Move}
      (place : Reaches source stream trees front progress (tree :: rest))
      (moved : move source stream progress tree rest = .ok made) :
      Reaches source stream trees (front ++ made.tokens) made.progress (rest.drop made.skip)

/-- The lexemes of a stream give these tokens. -/
def ReadsAs (source : Text) (stream : Stream) (trees : List Tree) (tokens : List Token) : Prop :=
  classify source stream (.start stream.start) 0 trees = .ok tokens

theorem Reaches.suffix (place : Reaches source stream trees front progress left) :
    left <:+ trees := by
  induction place with
  | start => exact List.suffix_refl trees
  | next _ _ induction =>
      apply List.IsSuffix.trans (List.drop_suffix _ _)
      exact List.IsSuffix.trans (List.suffix_cons _ _) induction

theorem Reaches.behind (place : Reaches source stream trees front progress left)
    (reads : ReadsAs source stream trees tokens) :
    ∃ behind, classify source stream progress 0 left = .ok behind ∧ tokens = front ++ behind := by
  induction place with
  | start => exact ⟨tokens, reads, rfl⟩
  | next _ moved induction =>
      obtain ⟨behind, continued, same⟩ := induction
      rw [classify_of_move moved] at continued
      obtain ⟨others, done, made⟩ := Except.exists_of_bind continued
      rw [classify_drop] at done
      refine ⟨others, done, ?_⟩
      rw [same, List.append_assoc, ← Except.ok.inj made]

theorem Reaches.exists_move (place : Reaches source stream trees front progress (tree :: rest))
    (reads : ReadsAs source stream trees tokens) :
    ∃ made others, move source stream progress tree rest = .ok made ∧
      classify source stream made.progress 0 (rest.drop made.skip) = .ok others ∧
      tokens = front ++ (made.tokens ++ others) := by
  obtain ⟨behind, continued, same⟩ := place.behind reads
  rw [classify_cons] at continued
  obtain ⟨made, moved, continued⟩ := Except.exists_of_bind continued
  obtain ⟨others, done, given⟩ := Except.exists_of_bind continued
  rw [classify_drop] at done
  refine ⟨made, others, moved, done, ?_⟩
  rw [same, ← Except.ok.inj given]

/-- A lexeme that the move of an earlier one takes along. -/
def TakenAlong (source : Text) (stream : Stream) (trees : List Tree) (tree : Tree)
    (after : List Tree) : Prop :=
  ∃ front progress head taken made,
    Reaches source stream trees front progress (head :: (taken ++ tree :: after)) ∧
      move source stream progress head (taken ++ tree :: after) = .ok made ∧
      taken.length < made.skip

theorem mem_take_of_length_lt {before : List Tree} {count : Nat} (short : before.length < count) :
    tree ∈ (before ++ tree :: after).take count := by
  obtain ⟨more, same⟩ := Nat.exists_eq_add_of_lt short
  rw [List.take_append, show count - before.length = more + 1 by omega]
  exact List.mem_append_right _ List.mem_cons_self

/-- Only bare text takes lexemes along that are no companions. -/
theorem TakenAlong.companion_or_bare (taken : TakenAlong source stream trees tree after) :
    isCompanion tree = true ∨ continuesArgument tree = true ∧
      ∃ front progress name touching between made,
        Reaches source stream trees front progress
            (.word name touching :: (between ++ tree :: after)) ∧
          move source stream progress (.word name touching) (between ++ tree :: after) = .ok made ∧
          progress.mode = .argument ∧
          made.tokens = [.word (argumentRun name touching (between ++ tree :: after)).1] ∧
          between.length < (argumentRun name touching (between ++ tree :: after)).2 := by
  obtain ⟨front, progress, head, between, made, place, moved, short⟩ := taken
  have among : tree ∈ (between ++ tree :: after).take made.skip := mem_take_of_length_lt short
  rcases (acts_of_move moved).companions with companions | ⟨name, touching, rfl, mode, given, skip⟩
  · exact .inl (companions tree among)
  · rw [skip] at short among
    rw [argumentRun_eq] at among
    exact .inr ⟨run_takes _ _ _ _ tree among, front, progress, name, touching, between, made, place,
      moved, mode, given, short⟩

theorem Reaches.meets (before : List Tree)
    (place : Reaches source stream trees front progress (before ++ tree :: after))
    (reads : ReadsAs source stream trees tokens) :
    (∃ front progress, Reaches source stream trees front progress (tree :: after)) ∨
      TakenAlong source stream trees tree after := by
  induction size : before.length using Nat.strong_induction_on
    generalizing before front progress with
  | _ count induction =>
      cases before with
      | nil => exact .inl ⟨front, progress, place⟩
      | cons head more =>
          obtain ⟨made, others, moved, -, -⟩ := place.exists_move reads
          rcases Nat.lt_or_ge more.length made.skip with taken | passed
          · exact .inr ⟨front, progress, head, more, made, place, moved, taken⟩
          · have later : Reaches source stream trees (front ++ made.tokens) made.progress
                ((more ++ tree :: after).drop made.skip) := place.next moved
            rw [List.drop_append_of_le_length passed] at later
            have shorter : (more.drop made.skip).length < count := by
              rw [← size, List.length_drop, List.length_cons]
              omega
            exact induction _ shorter (more.drop made.skip) later rfl

theorem exists_place (reads : ReadsAs source stream trees tokens) {before : List Tree}
    (split : trees = before ++ tree :: after) :
    (∃ front progress, Reaches source stream trees front progress (tree :: after)) ∨
      TakenAlong source stream trees tree after := by
  have first : Reaches source stream trees [] (.start stream.start) (before ++ tree :: after) := by
    rw [← split]
    exact .start
  exact first.meets before reads

/-- The place whose move gives a token, by the tokens before and behind it in the stream. -/
def GivenAt (source : Text) (stream : Stream) (trees : List Tree) (front : List Token)
    (token : Token) (behind : List Token) : Prop :=
  ∃ seen progress tree rest made given later others,
    Reaches source stream trees seen progress (tree :: rest) ∧
      move source stream progress tree rest = .ok made ∧
      made.tokens = given ++ token :: later ∧ front = seen ++ given ∧
      classify source stream made.progress 0 (rest.drop made.skip) = .ok others ∧
      behind = later ++ others

theorem Reaches.gives {seen behind : List Token} {token : Token}
    (place : Reaches source stream trees seen progress left)
    (continued : classify source stream progress 0 left = .ok (front ++ token :: behind)) :
    GivenAt source stream trees (seen ++ front) token behind := by
  induction size : left.length using Nat.strong_induction_on
    generalizing left front seen progress with
  | _ count induction =>
      cases left with
      | nil =>
          rw [classify_nil] at continued
          exact absurd (Except.ok.inj continued) (by simp)
      | cons tree rest =>
          rw [classify_cons] at continued
          obtain ⟨made, moved, continued⟩ := Except.exists_of_bind continued
          obtain ⟨others, done, same⟩ := Except.exists_of_bind continued
          rw [classify_drop] at done
          -- The token is among those of this move, or it comes later.
          have later (given : List Token) (here : front = made.tokens ++ given)
              (there : others = given ++ token :: behind) :
              GivenAt source stream trees (seen ++ front) token behind := by
            have shorter : (rest.drop made.skip).length < count := by
              rw [← size, List.length_drop, List.length_cons]
              omega
            rw [here, ← List.append_assoc]
            exact induction _ shorter (place.next moved) (there ▸ done) rfl
          rcases List.append_eq_append_iff.mp (Except.ok.inj same) with
            ⟨given, here, there⟩ | ⟨given, here, there⟩
          · exact later given here there
          · cases given with
            | nil => exact later [] (by simpa using here.symm) (by simpa using there.symm)
            | cons first more =>
                obtain ⟨rfl, rfl⟩ := List.cons.inj there
                exact ⟨seen, progress, tree, rest, made, front, more, others, place, moved, here, rfl,
                  done, rfl⟩

theorem exists_giver {behind : List Token} {token : Token}
    (reads : ReadsAs source stream trees (front ++ token :: behind))
    (alone : ∀ progress tree rest made, move source stream progress tree rest = .ok made →
      token ∈ made.tokens → made.tokens = [token]) :
    ∃ progress tree rest made, Reaches source stream trees front progress (tree :: rest) ∧
      move source stream progress tree rest = .ok made ∧ token ∈ made.tokens ∧
      classify source stream made.progress 0 (rest.drop made.skip) = .ok behind := by
  have given := (Reaches.start : Reaches source stream trees _ _ _).gives reads
  rw [List.nil_append] at given
  obtain ⟨seen, progress, tree, rest, made, given, later, others, place, moved, tokens, before, done,
    same⟩ := given
  have among : token ∈ made.tokens := by simp [tokens]
  rw [alone progress tree rest made moved among] at tokens
  cases given with
  | cons first more => simp at tokens
  | nil =>
      obtain rfl := (List.cons.inj tokens).2
      rw [List.append_nil] at before
      rw [List.nil_append] at same
      rw [before, same]
      exact ⟨progress, tree, rest, made, place, moved, among, done⟩

end Places

section Bodies

variable {source : Text} {stream : Stream} {trees body rest : List Tree} {tokens front : List Token}
  {progress : Progress}

def isHolder (tree : Tree) : Bool := tree.kind = .group || tree.kind = .string

/-- Nothing takes groups and strings along, so each of them is at a place of its stream. -/
theorem exists_place_of_holder (reads : ReadsAs source stream trees tokens) {tree : Tree}
    (holds : isHolder tree = true) (member : tree ∈ trees) :
    ∃ front progress after, Reaches source stream trees front progress (tree :: after) := by
  obtain ⟨before, after, split⟩ := List.append_of_mem member
  rcases exists_place reads split with ⟨front, progress, place⟩ | taken
  · exact ⟨front, progress, after, place⟩
  · rcases taken.companion_or_bare with companion | ⟨continued, -⟩
    · cases tree <;> simp_all [isCompanion, isHolder, Tree.isWord, Tree.isSymbol, Tree.kind]
    · cases tree <;> simp_all [continuesArgument, isHolder, Tree.kind]

theorem Reaches.exists_body {delimiter : Delimiter} {span : Span}
    (place : Reaches source stream trees front progress (.group delimiter span body :: rest))
    (reads : ReadsAs source stream trees tokens) :
    ∃ inner behind, ReadsAs source ⟨innerMode stream progress delimiter, delimiter⟩ body inner ∧
      tokens = front ++ groupToken progress delimiter span inner :: behind := by
  obtain ⟨made, others, moved, -, same⟩ := place.exists_move reads
  cases acts_of_move moved with
  | @group _ _ _ inner inside =>
      rw [classifyInside] at inside
      exact ⟨inner, others, inside, same⟩

/-- An expression in a string is read as a stream of its own, and its token is one of those that the
string interpolates. -/
theorem exists_expression {parts : List Tree} {pieces : List Token} {inside : Span}
    (done : interpolate source parts = .ok pieces) (part : .group .paren inside body ∈ parts) :
    ∃ inner, ReadsAs source ⟨.function, .paren⟩ body inner ∧
      .group .paren (some .dollar) inside inner ∈ pieces := by
  induction parts generalizing pieces with
  | nil => cases part
  | cons first more induction =>
      -- Whatever the first part is, its token stands in front of those of the others.
      have later {token : Token} {others : List Token} (continued : interpolate source more = .ok others)
          (same : pieces = token :: others) (among : .group .paren inside body ∈ more) :
          ∃ inner, ReadsAs source ⟨.function, .paren⟩ body inner ∧
            .group .paren (some .dollar) inside inner ∈ pieces := by
        obtain ⟨inner, reads, given⟩ := induction continued among
        exact ⟨inner, reads, same ▸ List.mem_cons_of_mem _ given⟩
      cases first with
      | word span spacing =>
          rw [interpolate] at done
          obtain ⟨others, continued, same⟩ := Except.exists_of_bind done
          apply later continued (Except.ok.inj same).symm
          simpa using part
      | symbol | number | string => simp [interpolate] at done
      | group delimiter span held =>
          cases delimiter with
          | bracket => simp [interpolate] at done
          | brace =>
              rw [interpolate] at done
              dsimp only at done
              split at done
              · simp at done
              · obtain ⟨others, continued, same⟩ := Except.exists_of_bind done
                apply later continued (Except.ok.inj same).symm
                simpa using part
          | paren =>
              rw [interpolate] at done
              obtain ⟨inner, reads, done⟩ := Except.exists_of_bind done
              obtain ⟨others, continued, same⟩ := Except.exists_of_bind done
              rcases List.mem_cons.mp part with here | among
              · obtain ⟨-, rfl, rfl⟩ := Tree.group.inj here
                rw [classifyInside] at reads
                refine ⟨inner, reads, ?_⟩
                rw [← Except.ok.inj same]
                exact List.mem_cons_self
              · exact later continued (Except.ok.inj same).symm among

theorem Reaches.exists_parts {span : Span} {parts : List Tree}
    (place : Reaches source stream trees front progress (.string span parts :: rest))
    (reads : ReadsAs source stream trees tokens) :
    ∃ pieces, interpolate source parts = .ok pieces ∧ .string span pieces ∈ tokens := by
  obtain ⟨made, others, moved, -, same⟩ := place.exists_move reads
  cases acts_of_move moved with
  | @string _ _ pieces inside =>
      rw [classifyInside] at inside
      refine ⟨pieces, inside, ?_⟩
      rw [same]
      simp

end Bodies

section Streams

theorem innerStreamsOf_eq (tokens : List Token) :
    innerStreamsOf tokens = tokens.flatMap innerStreams := by
  induction tokens with
  | nil => rfl
  | cons token rest induction => rw [innerStreamsOf, induction, List.flatMap_cons]

mutual

theorem innerStreams_closed (token : Token) :
    ∀ stream ∈ token.innerStreams, innerStreamsOf stream ⊆ token.innerStreams := by
  intro stream member
  cases token with
  | string span parts =>
      rw [innerStreams] at member ⊢
      split at member
      next => cases member
      next filled =>
        rw [if_neg filled]
        apply List.Subset.trans _ (List.subset_cons_self _ _)
        rcases List.mem_cons.mp member with rfl | deeper
        · exact List.Subset.refl _
        · exact innerStreamsOf_closed parts stream deeper
  | group delimiter sign span body =>
      rw [innerStreams] at member ⊢
      split at member
      next => cases member
      next filled =>
        rw [if_neg filled]
        apply List.Subset.trans _ (List.subset_cons_self _ _)
        rcases List.mem_cons.mp member with rfl | deeper
        · exact List.Subset.refl _
        · exact innerStreamsOf_closed body stream deeper
  | _ => cases member

theorem innerStreamsOf_closed (tokens : List Token) :
    ∀ stream ∈ innerStreamsOf tokens, innerStreamsOf stream ⊆ innerStreamsOf tokens := by
  intro stream member
  cases tokens with
  | nil => cases member
  | cons token rest =>
      rw [innerStreamsOf] at member ⊢
      rcases List.mem_append.mp member with first | later
      · exact List.subset_append_of_subset_left _ (innerStreams_closed token stream first)
      · exact List.subset_append_of_subset_right _ (innerStreamsOf_closed rest stream later)

end

theorem streams_trans {tokens stream inner : List Token} (outer : stream ∈ streams tokens)
    (member : inner ∈ innerStreamsOf stream) : inner ∈ streams tokens := by
  apply List.mem_cons_of_mem
  rcases List.mem_cons.mp outer with rfl | deeper
  · exact member
  · exact innerStreamsOf_closed tokens stream deeper member

theorem body_mem_innerStreamsOf {tokens body : List Token} {delimiter : Delimiter}
    {sign : Option GroupSign} {span : Span} (member : .group delimiter sign span body ∈ tokens)
    (filled : body ≠ []) : body ∈ innerStreamsOf tokens := by
  rw [innerStreamsOf_eq, List.mem_flatMap]
  refine ⟨_, member, ?_⟩
  simp [innerStreams, filled]

theorem parts_mem_innerStreamsOf {tokens parts : List Token} {span : Span}
    (member : .string span parts ∈ tokens) (filled : parts ≠ []) :
    parts ∈ innerStreamsOf tokens := by
  rw [innerStreamsOf_eq, List.mem_flatMap]
  refine ⟨_, member, ?_⟩
  simp [innerStreams, filled]

end Streams

section Readings

variable {source : Text} {stream : Stream} {trees body : List Tree} {tokens : List Token}

/-- The streams of a source text: that of the file, and within each stream those of its groups and
of the expressions in its strings. Each comes with its lexemes and the tokens they give. -/
inductive Reading (source : Text) : Stream → List Tree → List Token → Prop
  | file {trees : List Tree} {tokens : List Token} (lexed : Tree.read source = .ok trees)
      (reads : ReadsAs source .file trees tokens) : Reading source .file trees tokens
  | group {stream : Stream} {trees body rest : List Tree} {tokens front inner : List Token}
      {progress : Progress} {delimiter : Delimiter} {span : Span}
      (outer : Reading source stream trees tokens)
      (place : Reaches source stream trees front progress (.group delimiter span body :: rest))
      (reads : ReadsAs source ⟨innerMode stream progress delimiter, delimiter⟩ body inner) :
      Reading source ⟨innerMode stream progress delimiter, delimiter⟩ body inner
  | expression {stream : Stream} {trees parts body : List Tree} {tokens inner : List Token}
      {span inside : Span} (outer : Reading source stream trees tokens)
      (string : .string span parts ∈ trees) (part : .group .paren inside body ∈ parts)
      (reads : ReadsAs source ⟨.function, .paren⟩ body inner) :
      Reading source ⟨.function, .paren⟩ body inner

theorem Reading.reads (reading : Reading source stream trees tokens) :
    ReadsAs source stream trees tokens := by
  cases reading with
  | file _ reads => exact reads
  | group _ _ reads => exact reads
  | expression _ _ _ reads => exact reads

theorem Reading.exists_group (reading : Reading source stream trees tokens) {delimiter : Delimiter}
    {span : Span} (member : .group delimiter span body ∈ trees) :
    ∃ mode inner, Reading source ⟨mode, delimiter⟩ body inner := by
  obtain ⟨front, progress, after, place⟩ := exists_place_of_holder reading.reads rfl member
  obtain ⟨inner, behind, reads, -⟩ := place.exists_body reading.reads
  exact ⟨_, inner, .group reading place reads⟩

theorem Reading.exists_expression (reading : Reading source stream trees tokens)
    {parts : List Tree} {span inside : Span} (string : .string span parts ∈ trees)
    (part : .group .paren inside body ∈ parts) :
    ∃ inner, Reading source ⟨.function, .paren⟩ body inner := by
  obtain ⟨front, progress, after, place⟩ := exists_place_of_holder reading.reads rfl string
  obtain ⟨pieces, done, -⟩ := place.exists_parts reading.reads
  obtain ⟨inner, reads, -⟩ := Token.exists_expression done part
  exact ⟨inner, .expression reading string part reads⟩

theorem ReadsAs.unique {other : List Token} (reads : ReadsAs source stream trees tokens)
    (again : ReadsAs source stream trees other) : tokens = other := by
  rw [ReadsAs] at reads again
  rw [reads] at again
  exact Except.ok.inj again

/-- The tokens of a stream that has any are one of the streams of all tokens. -/
theorem Reading.shown {all : List Token} (accepted : read source = .ok all)
    (reading : Reading source stream trees tokens) (filled : tokens ≠ []) :
    tokens ∈ streams all := by
  induction reading with
  | file lexed reads =>
      obtain ⟨other, again, made⟩ := Except.exists_of_bind accepted
      obtain rfl := Except.ok.inj (lexed.symm.trans again)
      rw [reads.unique made]
      exact List.mem_cons_self
  | group outer place reads induction =>
      obtain ⟨inner, behind, again, same⟩ := place.exists_body outer.reads
      obtain rfl := reads.unique again
      have given := same ▸ List.mem_append_right _ List.mem_cons_self
      apply streams_trans (induction (List.ne_nil_of_mem given))
      exact body_mem_innerStreamsOf given filled
  | expression outer string part reads induction =>
      obtain ⟨front, progress, after, place⟩ := exists_place_of_holder outer.reads rfl string
      obtain ⟨pieces, done, given⟩ := place.exists_parts outer.reads
      obtain ⟨inner, again, piece⟩ := Token.exists_expression done part
      obtain rfl := reads.unique again
      have outerShown := induction (List.ne_nil_of_mem given)
      have piecesShown := streams_trans outerShown
        (parts_mem_innerStreamsOf given (List.ne_nil_of_mem piece))
      exact streams_trans piecesShown (body_mem_innerStreamsOf piece filled)

end Readings

end ScopeLint.Token
