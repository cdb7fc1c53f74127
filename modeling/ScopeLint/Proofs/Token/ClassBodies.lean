import ScopeLint.Proofs.Token.Separators

/-!
Class bodies. A class keyword is remembered until the next group of its stream, of whatever brackets;
a body between braces is read as one of a class when that group is the body itself. In such a body
what comes first, or behind a semicolon or line break, is a name and no command. A group in the
header of a class, such as the brackets of a generic base, makes the classifier forget the keyword.
-/

namespace ScopeLint.Token

section Memory

variable {source : Text} {stream : Stream} {progress : Progress} {tree : Tree}
  {trees rest left : List Tree} {made : Move} {front more : List Token}

def AwaitsBody (front : List Token) : Prop :=
  ∃ earlier span header, front = earlier ++ .keyword .classWord span :: header ∧
    ∀ token ∈ header, token.kind ≠ .group

theorem awaitsBody_append (plain : ∀ token ∈ more, token.kind ≠ .keyword .classWord) :
    AwaitsBody (front ++ more) ↔ AwaitsBody front ∧ ∀ token ∈ more, token.kind ≠ .group := by
  constructor
  · rintro ⟨earlier, span, header, same, waits⟩
    have absent : .keyword .classWord span ∉ more := fun member => plain _ member rfl
    rcases List.append_eq_append_iff.mp same with ⟨given, -, later⟩ | ⟨given, before, later⟩
    · exact absurd (later ▸ List.mem_append_right _ List.mem_cons_self) absent
    · cases given with
      | nil => exact absurd ((List.nil_append more).symm.trans later.symm ▸ List.mem_cons_self) absent
      | cons first others =>
          obtain ⟨rfl, behind⟩ := List.cons.inj later
          rw [behind] at waits
          obtain ⟨waits, plainMore⟩ := List.forall_mem_append.mp waits
          exact ⟨⟨earlier, span, others, before, waits⟩, plainMore⟩
  · rintro ⟨⟨earlier, span, header, rfl, waits⟩, others⟩
    refine ⟨earlier, span, header ++ more, by simp, ?_⟩
    exact List.forall_mem_append.mpr ⟨waits, others⟩

theorem SymbolActs.kinds {mode : Mode} {span : Span} {char : Char} {effect : Effect}
    (acts : SymbolActs stream mode span rest char effect) :
    ∀ token ∈ effect.tokens, token.kind ∈ signKinds := by
  cases acts with
  | dollar => exact kind_variableRun _ _
  | _ => simp [kind, signKinds]

/-- The memory of a class keyword, act by act: a move gives the keyword, or it keeps what it knew
exactly if it gives no group. -/
theorem Acts.remembers (acts : Acts source stream progress rest tree made) :
    (∃ span, made.tokens = [.keyword .classWord span] ∧ made.progress.afterClass = true) ∨
      (∀ token ∈ made.tokens, token.kind ≠ .keyword .classWord) ∧
        (made.progress.afterClass = true ↔
          progress.afterClass = true ∧ ∀ token ∈ made.tokens, token.kind ≠ .group) := by
  cases acts with
  | command expected =>
      generalize given : ofCommand source _ = token
      have plain : token.kind ≠ .group := given ▸ kind_ofCommand _
      cases token with
      | keyword which span =>
          cases which with
          | classWord => exact .inl ⟨span, rfl, rfl⟩
          | _ => simp [Progress.afterCommand, kind]
      | group => exact absurd rfl plain
      | _ => simp [Progress.afterCommand, kind]
  | symbol acts =>
      right
      constructor
      · intro token member same
        have sign := acts.kinds token member
        simp [same, signKinds] at sign
      · constructor
        · intro after
          exact ⟨after, fun token member => ne_group_of_sign (acts.kinds token member)⟩
        · intro kept
          exact kept.1
  | group inside => simp [groupToken, kind]
  | _ => simp [kind]

theorem Reaches.afterClass_iff (place : Reaches source stream trees front progress left) :
    progress.afterClass = true ↔ AwaitsBody front := by
  induction place with
  | start => simp [Progress.start, AwaitsBody]
  | next _ moved induction =>
      rcases (acts_of_move moved).remembers with ⟨span, given, after⟩ | ⟨plain, kept⟩
      · rw [given]
        exact iff_of_true after ⟨_, span, [], rfl, by simp⟩
      · rw [awaitsBody_append plain, kept, induction]

end Memory

section Bodies

variable {source : Text} {stream : Stream} {progress : Progress} {tree : Tree}
  {trees rest left : List Tree} {made : Move} {tokens : List Token}

theorem head_variableRun (sign : Option Span) (name : Span) (spacing : Spacing) (later : List Tree) :
    ∃ span more, (variableRun sign (.word name spacing :: later)).1 = .variable span name :: more := by
  unfold variableRun
  dsimp only
  split
  · exact ⟨_, _, rfl⟩
  · exact ⟨_, _, rfl⟩

theorem Acts.in_field_mode (field : progress.mode = .field)
    (acts : Acts source stream progress rest tree made) :
    made.tokens = [] ∧ made.progress.mode = .field ∨
      ∃ token more, made.tokens = token :: more ∧ token.kind ≠ .cmdlet := by
  cases acts with
  | command expected | membership expected | argument expected => simp [field] at expected
  | mark => exact .inl ⟨rfl, field⟩
  | symbol acts =>
      cases acts with
      | continuation => exact .inl ⟨rfl, field⟩
      | dollar word =>
          obtain ⟨name, word⟩ := Option.isSome_iff_exists.mp word
          obtain ⟨spacing, later, rfl⟩ := exists_of_nextWord word
          obtain ⟨whole, more, given⟩ := head_variableRun (some _) name spacing later
          exact .inr ⟨_, more, given, nofun⟩
      | _ => simp [kind]
  | _ => simp [kind, groupToken]

theorem head_in_field_mode (field : progress.mode = .field)
    (continued : classify source stream progress 0 left = .ok tokens) :
    ∀ token ∈ tokens.head?, token.kind ≠ .cmdlet := by
  induction size : left.length using Nat.strong_induction_on
    generalizing left progress tokens with
  | _ count induction =>
      cases left with
      | nil =>
          rw [classify_nil] at continued
          rw [← Except.ok.inj continued]
          simp
      | cons tree rest =>
          rw [classify_cons] at continued
          obtain ⟨made, moved, continued⟩ := Except.exists_of_bind continued
          obtain ⟨others, done, same⟩ := Except.exists_of_bind continued
          rw [← Except.ok.inj same]
          rcases (acts_of_move moved).in_field_mode field with ⟨empty, kept⟩ | ⟨token, more, given, plain⟩
          · -- A continued line or an at sign gives no token and leaves the mode as it is.
            have shorter : (rest.drop made.skip).length < count := by
              rw [← size, List.length_drop, List.length_cons]
              omega
            rw [classify_drop] at done
            rw [empty, List.nil_append]
            exact induction _ shorter kept done rfl
          · simpa [given] using plain

/-- Tokens that are read as they are where names are expected: the first is no command, and a word
that comes first is a name. -/
def OpensWithName (left : List Tree) (tokens : List Token) : Prop :=
  (∀ token ∈ tokens.head?, token.kind ≠ .cmdlet) ∧
    ∀ name touching more, left = .word name touching :: more → tokens.head? = some (.field name)

theorem opensWithName (field : progress.mode = .field)
    (continued : classify source stream progress 0 left = .ok tokens) :
    OpensWithName left tokens := by
  constructor
  · exact head_in_field_mode field continued
  · intro name touching more next
    rw [next] at continued
    have opening : progress.mode ≠ .argument := by simp [field]
    rw [head_of_word opening continued, openingToken, if_neg (by simp [field])]

theorem symbol_of_variableRun (sign : Option Span) (run : List Tree) {char : Char} {span : Span}
    (given : .symbol char span ∈ (variableRun sign run).1) : char = ':' := by
  induction sign, run using variableRun.induct with
  | case1 sign name colon rest tokens count run induction =>
      rw [run] at induction
      simp only [variableRun, run, List.mem_cons] at given
      rcases given with first | second | later
      · cases first
      · exact (Token.symbol.inj second).1
      · exact induction later
  | case2 sign name spacing rest other =>
      rw [variableRun_single other] at given
      simp at given
  | case3 trees sign other =>
      rw [variableRun] at given
      · cases given
      · exact other

/-- Semicolons among the tokens come from semicolons and line breaks, and lead back to the mode that
the stream starts in. -/
theorem Acts.of_semicolon {span : Span} (acts : Acts source stream progress rest tree made)
    (given : .symbol ';' span ∈ made.tokens) :
    made.tokens = [.symbol ';' span] ∧ made.progress.mode = stream.start ∧ made.skip = 0 ∧
      ∃ char spacing, tree = .symbol char span spacing ∧ (char = ';' ∨ char = '\n') := by
  cases acts with
  | command expected =>
      unfold ofCommand at given
      dsimp only at given
      repeat' split at given
      all_goals simp at given
  | @symbol char own spacing effect acts =>
      cases acts with
      | dollar => cases symbol_of_variableRun _ _ given
      | lineBreak =>
          obtain ⟨-, rfl⟩ := Token.symbol.inj (List.mem_singleton.mp given)
          exact ⟨rfl, rfl, rfl, _, spacing, rfl, .inr rfl⟩
      | plain =>
          obtain ⟨rfl, rfl⟩ := Token.symbol.inj (List.mem_singleton.mp given)
          exact ⟨rfl, rfl, rfl, _, spacing, rfl, .inl rfl⟩
      | _ => simp at given
  | _ => simp [groupToken] at given

/-- A body where names are expected at the start and behind every semicolon, whether that was written
or stands for a line break. -/
def ReadsNames (body : List Tree) (inner : List Token) : Prop :=
  OpensWithName body inner ∧
    ∀ before span after, inner = before ++ .symbol ';' span :: after →
      ∃ earlier char spacing rest, body = earlier ++ .symbol char span spacing :: rest ∧
        (char = ';' ∨ char = '\n') ∧ OpensWithName rest after

theorem ReadsAs.readsNames {body : List Tree} {inner : List Token} {delimiter : Delimiter}
    (reads : ReadsAs source ⟨.field, delimiter⟩ body inner) : ReadsNames body inner := by
  constructor
  · exact opensWithName rfl reads
  · rintro before span after rfl
    obtain ⟨progress, tree, rest, made, place, moved, given, done⟩ := exists_giver reads
      fun _ _ _ _ moved given => ((acts_of_move moved).of_semicolon given).1
    obtain ⟨-, mode, skip, char, spacing, rfl, written⟩ := (acts_of_move moved).of_semicolon given
    obtain ⟨earlier, split⟩ := place.suffix
    rw [skip, List.drop_zero] at done
    exact ⟨earlier, char, spacing, rest, split.symm, written, opensWithName mode done⟩

/-- Groups come from groups of the same brackets, whose bodies are streams of their own. -/
theorem Acts.of_group {delimiter : Delimiter} {sign : Option GroupSign} {whole : Span}
    {inner : List Token} (acts : Acts source stream progress rest tree made)
    (given : .group delimiter sign whole inner ∈ made.tokens) :
    made.tokens = [.group delimiter sign whole inner] ∧
      sign = (progress.atSign.map fun _ => GroupSign.atSign) ∧
      ∃ span body, tree = .group delimiter span body ∧ whole.stop = span.stop ∧
        ReadsAs source ⟨innerMode stream progress delimiter, delimiter⟩ body inner := by
  cases acts with
  | command expected =>
      have same := congrArg kind (List.mem_singleton.mp given)
      exact absurd same.symm (kind_ofCommand _)
  | symbol acts => exact absurd rfl (ne_group_of_sign (acts.kinds _ given))
  | @group own span body tokens inside =>
      obtain ⟨rfl, rfl, rfl, rfl⟩ := Token.group.inj (List.mem_singleton.mp given)
      rw [classifyInside] at inside
      refine ⟨rfl, rfl, span, body, rfl, ?_, inside⟩
      cases progress.atSign <;> rfl
  | _ => simp at given

theorem innerMode_brace : innerMode stream progress .brace = .field ↔
    progress.atSign.isSome = true ∨ progress.afterClass = true := by
  unfold innerMode
  cases sign : progress.atSign.isSome with
  | true => simp
  | false =>
      cases after : progress.afterClass with
      | true => simp
      | false => by_cases typed : stream.start = .typeName <;> simp [typed]

/-- The groups between braces of any stream of an accepted text. Their bodies are read as those of a
class, or of a literal table, exactly when an at sign belongs to them or when a class keyword stands
before them with no other group in between; then what comes first in them, or directly behind a
semicolon or line break, is a name and never a command. -/
theorem class_bodies_read_names {all front inner behind : List Token} {sign : Option GroupSign}
    {whole : Span} (accepted : read source = .ok all)
    (reading : Reading source stream trees (front ++ .group .brace sign whole inner :: behind)) :
    front ++ .group .brace sign whole inner :: behind ∈ streams all ∧
      ∃ mode span body, .group .brace span body ∈ trees ∧ whole.stop = span.stop ∧
        Reading source ⟨mode, .brace⟩ body inner ∧
        (mode = .field ↔ sign = some .atSign ∨ AwaitsBody front) ∧
        (mode = .field → ReadsNames body inner) := by
  constructor
  · exact reading.shown accepted (by simp)
  · obtain ⟨progress, tree, rest, made, place, moved, given, -⟩ := exists_giver reading.reads
      fun _ _ _ _ moved given => ((acts_of_move moved).of_group given).1
    obtain ⟨-, sign_eq, span, body, rfl, stop, reads⟩ := (acts_of_move moved).of_group given
    have signed : sign = some .atSign ↔ progress.atSign.isSome = true := by
      rw [sign_eq]
      cases progress.atSign <;> simp
    refine ⟨_, span, body, place.suffix.mem List.mem_cons_self, stop, .group reading place reads, ?_, ?_⟩
    · rw [innerMode_brace, signed, place.afterClass_iff]
    · intro mode
      rw [mode] at reads
      exact reads.readsNames

end Bodies

def derived : Text := "class A : B \x7bRun();Stop\x7d"

def derivedBody : List Tree :=
  [.word (onFirstLine 13 16) .joined, .group .paren (onFirstLine 16 18) [],
    .symbol ';' (onFirstLine 18 19) .joined, .word (onFirstLine 19 23) .alone]

def derivedTrees : List Tree :=
  [.word (onFirstLine 0 5) .alone, .word (onFirstLine 6 7) .alone,
    .symbol ':' (onFirstLine 8 9) .alone, .word (onFirstLine 10 11) .alone,
    .group .brace (onFirstLine 12 24) derivedBody]

def derivedFront : List Token :=
  [.keyword .classWord (onFirstLine 0 5), .field (onFirstLine 6 7), .symbol ':' (onFirstLine 8 9),
    .word (onFirstLine 10 11)]

def derivedInner : List Token :=
  [.field (onFirstLine 13 16), .group .paren none (onFirstLine 16 18) [],
    .symbol ';' (onFirstLine 18 19), .field (onFirstLine 19 23)]

theorem derived_reads_names :
    ∃ body, Reading derived ⟨.field, .brace⟩ body derivedInner ∧ ReadsNames body derivedInner := by
  have accepted : read derived =
      .ok (derivedFront ++ .group .brace none (onFirstLine 12 24) derivedInner :: []) := rfl
  have file : Reading derived .file derivedTrees
      (derivedFront ++ .group .brace none (onFirstLine 12 24) derivedInner :: []) := .file rfl rfl
  obtain ⟨-, mode, span, body, -, -, inside, field, names⟩ := class_bodies_read_names accepted file
  have waits : AwaitsBody derivedFront :=
    ⟨[], onFirstLine 0 5, derivedFront.tail, rfl, by simp [derivedFront, kind]⟩
  obtain rfl := field.mpr (.inr waits)
  exact ⟨body, inside, names rfl⟩

def generic : Text := "class A : B[int] \x7bRun\x7d"

def genericBody : List Tree := [.word (onFirstLine 18 21) .alone]

def genericTrees : List Tree :=
  [.word (onFirstLine 0 5) .alone, .word (onFirstLine 6 7) .alone,
    .symbol ':' (onFirstLine 8 9) .alone, .word (onFirstLine 10 11) .joined,
    .group .bracket (onFirstLine 11 16) [.word (onFirstLine 12 15) .alone],
    .group .brace (onFirstLine 17 22) genericBody]

def genericHeader : List Token :=
  [.field (onFirstLine 6 7), .symbol ':' (onFirstLine 8 9), .word (onFirstLine 10 11),
    .group .bracket none (onFirstLine 11 16) [.field (onFirstLine 12 15)]]

def genericInner : List Token := [.cmdlet (onFirstLine 18 21)]

/-- The brackets make the classifier forget the keyword: in the body, which is the first group
between braces behind it, the member is read as a command. -/
theorem generic_body_lost :
    Reading generic .file genericTrees
        (.keyword .classWord (onFirstLine 0 5) :: genericHeader ++
          [.group .brace none (onFirstLine 17 22) genericInner]) ∧
      .group .brace (onFirstLine 17 22) genericBody ∈ genericTrees ∧
      ¬ ReadsNames genericBody genericInner := by
  refine ⟨.file rfl rfl, by simp [genericTrees], ?_⟩
  rintro ⟨⟨names, -⟩, -⟩
  exact names (.cmdlet (onFirstLine 18 21)) rfl rfl

end ScopeLint.Token
