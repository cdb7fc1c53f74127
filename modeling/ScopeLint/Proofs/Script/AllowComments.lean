import ScopeLint.Allow
import ScopeLint.Proofs.Source.LineEndings
import ScopeLint.Proofs.Text.Case
import ScopeLint.Proofs.Text.Split
import ScopeLint.Proofs.Tree.Comments
import ScopeLint.Script.Basic

/-!
What allows a finding. On the line of a usage the first hash is taken for the start of a comment, and
behind it the word is looked for. This is what the reader skips as a comment unless the hash stands in a
string, or in a block comment with more of the line behind it.
-/

namespace ScopeLint

open Text

variable {source before line after : Text} {offset : Int} {word : Text}

/-- The line of a text around a byte, with what is in front of it and behind it. A carriage return in front of
the line feed counts as part of the line. -/
structure LineAround (source before line after : Text) (offset : Int) : Prop where
  split : source = before ++ (line ++ after)
  fresh : ∀ last ∈ before.getLast?, last = lineFeed
  inLine : lineFeed ∉ line
  ends : ∀ next ∈ after.head?, next = lineFeed
  low : before.length ≤ offset
  high : offset ≤ before.length + line.length

def CommentPart (source before line part : Text) : Prop :=
  ∃ front comment behind, Tree.Skips source front comment behind ∧
    max before.length front.length < min (before.length + line.length) (front.length + comment.length) ∧
    part = source.slice (max before.length front.length)
      (min (before.length + line.length) (front.length + comment.length))

/-- A comment on a line has the given word on the line and, in some letter case, the word "allow". -/
def CommentAllows (source before line word : Text) : Prop :=
  ∃ part, CommentPart source before line part ∧ word <:+: part ∧ ofString "allow" <:+: part.lower

/-- The first hash of a line opens no comment that runs on to the end of the line: it stands in a string, or
in a block comment that ends on the line with more behind it. -/
def Mistaken (source before line : Text) : Prop :=
  ∃ front rest, line = front ++ byte '#' :: rest ∧ byte '#' ∉ front ∧
    (Tree.Quoted source (before.length + front.length : Nat) ∨
      ∃ start comment behind, Tree.Skips source start comment behind ∧ comment.head? = some (byte '<') ∧
        start.length ≤ before.length + front.length ∧
        before.length + front.length < start.length + comment.length ∧
        start.length + comment.length < before.length + line.length)

theorem exists_lineAround (nonneg : 0 ≤ offset) (within : offset ≤ source.length) :
    ∃ before line after, LineAround source before line after offset ∧
      lineAt source offset = line.dropEnding [carriageReturn] := by
  obtain ⟨place, rfl⟩ := Int.eq_ofNat_of_zero_le nonneg
  let inside := fun next : UInt8 => decide (next ≠ lineFeed)
  let front : Text := source.take place
  let behind : Text := source.drop place
  have length : front.length = place := by
    rw [List.length_take]
    omega
  have cut : front = (front.reverse.dropWhile inside).reverse ++ (front.reverse.takeWhile inside).reverse := by
    rw [← List.reverse_append, List.takeWhile_append_dropWhile, List.reverse_reverse]
  have cutBehind : behind = behind.takeWhile inside ++ behind.dropWhile inside :=
    List.takeWhile_append_dropWhile.symm
  have stays {text : Text} : lineFeed ∉ text.takeWhile inside := by
    intro member
    have passed := List.mem_takeWhile_imp member
    simp [inside] at passed
  refine ⟨(front.reverse.dropWhile inside).reverse,
    (front.reverse.takeWhile inside).reverse ++ behind.takeWhile inside, behind.dropWhile inside,
    ⟨?_, ?_, ?_, ?_, ?_, ?_⟩, ?_⟩
  · rw [List.append_assoc, ← cutBehind, ← List.append_assoc, ← cut, List.take_append_drop]
  · intro last ends
    rw [List.getLast?_reverse] at ends
    simpa [inside] using List.head?_dropWhile_fails inside _ last ends
  · rw [List.mem_append, List.mem_reverse]
    exact not_or.mpr ⟨stays, stays⟩
  · intro next first
    simpa [inside] using List.head?_dropWhile_fails inside _ next first
  · have lengths := congrArg List.length cut
    rw [List.length_append] at lengths
    omega
  · have lengths := congrArg List.length cut
    rw [List.length_append] at lengths ⊢
    omega
  · have line := lineAt_cut front behind
    rw [List.take_append_drop, length] at line
    exact line

/-- What stands in front of a mark ends no sooner than a text without that mark that starts in it. -/
theorem le_of_mark_not_mem {front inner behind first second third : Text} {mark : UInt8}
    (split : source = front ++ (inner ++ behind)) (other : source = first ++ (second ++ third))
    (ends : ∀ next ∈ behind.head?, next = mark) (absent : mark ∉ second)
    (reaches : first.length ≤ front.length + inner.length) :
    first.length + second.length ≤ front.length + inner.length := by
  refine Nat.not_lt.mp fun early => ?_
  have lengths := congrArg List.length (split.symm.trans other)
  simp only [List.length_append] at lengths
  cases behind with
  | nil =>
      rw [List.length_nil] at lengths
      omega
  | cons next behind =>
      obtain rfl := ends next rfl
      have here : source[front.length + inner.length]? = some next := by
        rw [split, ← List.append_assoc, ← List.length_append, List.getElem?_append_right (Nat.le_refl _),
          Nat.sub_self, List.getElem?_cons_zero]
      rw [other, List.getElem?_append_right reaches, List.getElem?_append_left (by omega)] at here
      exact absent (List.mem_of_getElem? here)

/-- What a line has to hold to allow a word. -/
theorem exists_of_allows (allowed : allows (line.dropEnding [carriageReturn]) word = true) :
    ∃ front rest, line = front ++ byte '#' :: rest ∧ byte '#' ∉ front ∧ word <:+: rest ∧
      ofString "allow" <:+: lower rest := by
  obtain ⟨ending, cut, returns⟩ := exists_ending line
  rw [allows] at allowed
  split at allowed
  next front comment found =>
    obtain ⟨same, absent⟩ := exists_cut? found
    obtain ⟨allow, names⟩ := Bool.and_eq_true_iff.mp allowed
    rw [same, List.append_assoc, List.cons_append] at cut
    have lowered : comment.lower <:+: lower (comment ++ ending) := by
      rcases returns with rfl | ⟨rfl, -⟩
      · have around := lower_mark (show IsAscii '\r' from ⟨by decide, by decide⟩) comment []
        rw [show [carriageReturn] = [byte '\r'] from rfl, around]
        exact (List.prefix_append _ _).isInfix
      · simp
    have named : word <:+: comment ++ ending :=
      (contains_iff_part.mp names).trans (List.prefix_append _ _).isInfix
    exact ⟨front, comment ++ ending, cut, absent, named, (contains_iff_part.mp allow).trans lowered⟩
  next => cases allowed

/-- A comment that runs over a hash of a line up to the end of the line holds what is behind the hash. -/
theorem commentAllows_of_skips {start comment behind front rest : Text}
    (split : source = before ++ (line ++ after)) (hash : line = front ++ byte '#' :: rest)
    (skips : Tree.Skips source start comment behind) (opens : start.length ≤ before.length + front.length)
    (ends : before.length + line.length ≤ start.length + comment.length) (names : word <:+: rest)
    (allow : ofString "allow" <:+: lower rest) : CommentAllows source before line word := by
  have stop : min (before.length + line.length) (start.length + comment.length) = before.length + line.length :=
    Nat.min_eq_left ends
  have length : line.length = front.length + (rest.length + 1) := by
    rw [hash, List.length_append, List.length_cons]
  have cut : source = (before ++ front) ++ ((byte '#' :: rest) ++ after) := by
    rw [split, hash]
    simp
  have behindHash : source.slice (before.length + front.length) (before.length + line.length) = byte '#' :: rest := by
    have middle := slice_middle (before ++ front) (byte '#' :: rest) after
    rwa [← cut, List.length_append, List.length_cons, Nat.add_assoc, ← length] at middle
  let first := max before.length start.length
  have low : first ≤ before.length + front.length := Nat.max_le.mpr ⟨Nat.le_add_right _ _, opens⟩
  have part : source.slice first (before.length + line.length) =
      source.slice first (before.length + front.length) ++ byte '#' :: rest := by
    rw [slice_append source low (by omega), behindHash]
  refine ⟨source.slice first (before.length + line.length), ⟨start, comment, behind, skips, ?_, ?_⟩, ?_, ?_⟩
  · rw [stop]
    omega
  · rw [stop]
  · rw [part]
    exact names.trans ((List.suffix_cons _ _).trans (List.suffix_append _ _)).isInfix
  · rw [part, lower_mark (by decide)]
    exact allow.trans ((List.suffix_append _ _).trans (List.suffix_append _ _)).isInfix

/-- What allows a word on a line is a comment, or else the first hash of the line does not start one. -/
theorem comment_or_mistaken {trees : List Tree} (accepted : Tree.read source = .ok trees)
    (allowed : allows (lineAt source offset) word = true) :
    ∃ before line after, LineAround source before line after offset ∧
      (CommentAllows source before line word ∨ Mistaken source before line) := by
  have inside : 0 ≤ offset ∧ offset ≤ source.length := by
    by_contra outside
    have empty : lineAt source offset = [] := by
      apply if_pos
      simp only [Bool.or_eq_true, decide_eq_true_eq]
      omega
    rw [empty] at allowed
    cases allowed
  obtain ⟨before, line, after, around, shown⟩ := exists_lineAround inside.1 inside.2
  rw [shown] at allowed
  obtain ⟨front, rest, hash, absent, names, allow⟩ := exists_of_allows allowed
  refine ⟨before, line, after, around, ?_⟩
  have length : line.length = front.length + (rest.length + 1) := by
    rw [hash, List.length_append, List.length_cons]
  have place : source[before.length + front.length]? = some (byte '#') := by
    rw [around.split, hash, List.append_assoc, ← List.append_assoc, ← List.length_append, List.cons_append,
      List.getElem?_append_right (Nat.le_refl _), Nat.sub_self, List.getElem?_cons_zero]
  rcases Tree.mute_of_read place accepted with ⟨start, comment, behind, skips, low, high⟩ | quoted
  · by_cases ends : before.length + line.length ≤ start.length + comment.length
    · exact .inl (commentAllows_of_skips around.split hash skips low ends names allow)
    · have block : comment.head? = some (byte '<') := by
        have split := skips.split
        cases skips.form with
        | line inLine stops =>
            exact absurd (le_of_mark_not_mem split around.split stops around.inLine (by omega)) ends
        | block shown unclosed opens closes => exact opens
      have early := Nat.not_le.mp ends
      exact .inr ⟨front, rest, hash, absent, .inr ⟨start, comment, behind, skips, block, low, high, early⟩⟩
  · exact .inr ⟨front, rest, hash, absent, .inl quoted⟩

namespace Script

/-- A usage that a line allows stands on a line with a comment that has the word and "allow", or on one
whose first hash is in a string or in a block comment that ends before the line does. -/
theorem usages_allowed {text : Text} {script : Script} (accepted : read text = .ok script) (word : Text) :
    ∀ usage ∈ script.usages, allows (lineAt text.dropMark usage.span.start.byte) word = true →
      ∃ before line after, LineAround text.dropMark before line after usage.span.start.byte ∧
        (CommentAllows text.dropMark before line word ∨ Mistaken text.dropMark before line) := by
  intro usage _ allowed
  obtain ⟨tokens, classified, -⟩ := Except.exists_of_bind accepted
  obtain ⟨trees, lexed, -⟩ := Except.exists_of_bind classified
  exact comment_or_mistaken lexed allowed

def remarked : Text := "Foo # allow Foo"

/-- There is no string and no block comment, so it is the comment that allows the call. -/
theorem remarked_allowed :
    ∃ script, read remarked = .ok script ∧ ∃ usage ∈ script.usages,
      allows (lineAt remarked.dropMark usage.span.start.byte) "Foo" = true ∧
      ∃ before line after, LineAround remarked.dropMark before line after usage.span.start.byte ∧
        CommentAllows remarked.dropMark before line "Foo" := by
  have accepted : read remarked = .ok ⟨[], [], [⟨⟨"Foo", .function⟩, ⟨⟨0, 1, 1⟩, ⟨3, 1, 4⟩⟩⟩], []⟩ := by
    decide +kernel
  have lexed : Tree.read remarked = .ok [.word ⟨⟨0, 1, 1⟩, ⟨3, 1, 4⟩⟩ .alone] := rfl
  refine ⟨_, accepted, _, List.mem_cons_self, by decide +kernel, ?_⟩
  obtain ⟨before, line, after, around, comment | ⟨front, rest, -, -, quoted | block⟩⟩ :=
    usages_allowed accepted "Foo" _ List.mem_cons_self (by decide +kernel)
  · exact ⟨before, line, after, around, comment⟩
  · obtain ⟨span, parts, occurs, -⟩ := quoted
    have member := occurs.mem lexed (by simp [Tree.held])
    simp at member
  · obtain ⟨start, comment, behind, skips, opens, -⟩ := block
    have angle : byte '<' ∈ remarked := by
      have split : remarked = start ++ (comment ++ behind) := skips.split
      rw [split]
      exact List.mem_append_right _ (List.mem_append_left _ (List.mem_of_mem_head? opens))
    exact absurd angle (by decide)

def quotedRemark : Text := "A '#allow A'"

def quotedTrees : List Tree :=
  [.word ⟨⟨0, 1, 1⟩, ⟨1, 1, 2⟩⟩ .alone, .string ⟨⟨2, 1, 3⟩, ⟨12, 1, 13⟩⟩ []]

theorem quotedRemark_lexed : Tree.read quotedRemark = .ok quotedTrees := rfl

theorem quotedRemark_skips_none {front comment behind : Text} :
    ¬ Tree.Skips quotedRemark front comment behind := by
  intro skips
  obtain ⟨first, last, gapAt, low, high, -⟩ := skips.skipped
  have split := skips.split
  have opens : comment.head? = some (byte '#') ∨ comment.head? = some (byte '<') := by
    cases skips.form with
    | line => exact .inl rfl
    | block _ _ opens => exact .inr opens
  have place : quotedRemark[front.length]? = comment.head? := by
    rw [split, List.getElem?_append_right (Nat.le_refl _), Nat.sub_self, ← List.head?_eq_getElem?]
    rcases opens with opens | opens <;> rw [List.head?_append, opens, Option.some_or]
  have third : front.length = 3 := by
    have only : ∀ index < 12, quotedRemark[index]? = some (byte '#') ∨ quotedRemark[index]? = some (byte '<') →
        index = 3 := by decide
    rw [← place] at opens
    have inside : front.length < 12 := by
      rcases opens with opens | opens <;> exact (List.getElem?_eq_some_iff.mp opens).1
    exact only _ inside opens
  rw [third] at low high
  cases gapAt with
  | @intro start stop before behind stream =>
      generalize whole : before ++ behind = trees at stream
      cases stream with
      | group occurs =>
          have member := occurs.mem quotedRemark_lexed (by simp [quotedTrees, Tree.held])
          simp [quotedTrees] at member
      | file accepted =>
          obtain rfl := Except.ok.inj (accepted.symm.trans quotedRemark_lexed)
          rcases before with _ | ⟨word, _ | ⟨string, _ | ⟨more, before⟩⟩⟩
          · obtain rfl := whole
            simp [quotedTrees, Tree.span] at high
          · obtain ⟨rfl, rfl⟩ := List.cons.inj whole
            simp [Tree.span] at high
          · obtain ⟨rfl, later⟩ := List.cons.inj whole
            obtain ⟨rfl, -⟩ := List.cons.inj later
            simp [Tree.span] at low
          · simp [quotedTrees] at whole

/-- What stands in the string allows the call, and there is no comment. -/
theorem quotedRemark_allowed :
    ∃ script, read quotedRemark = .ok script ∧ ∃ usage ∈ script.usages,
      allows (lineAt quotedRemark.dropMark usage.span.start.byte) "A" = true ∧
      ¬ ∃ before line after, LineAround quotedRemark.dropMark before line after usage.span.start.byte ∧
        CommentAllows quotedRemark.dropMark before line "A" := by
  have accepted : read quotedRemark = .ok ⟨[], [], [⟨⟨"A", .function⟩, ⟨⟨0, 1, 1⟩, ⟨1, 1, 2⟩⟩⟩], []⟩ := by
    decide +kernel
  refine ⟨_, accepted, _, List.mem_cons_self, by decide +kernel, ?_⟩
  rintro ⟨before, line, after, -, part, ⟨front, comment, behind, skips, -⟩, -⟩
  exact quotedRemark_skips_none skips

end Script

end ScopeLint
