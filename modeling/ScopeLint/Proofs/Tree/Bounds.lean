import ScopeLint.Proofs.Tree.Coverage

/-!
No lexeme reaches over an end of its text, at any depth, so the text under its span is never cut
off. The bounds of a group or string leave room for its brackets or quotes, and what it holds lies
between them.
-/

namespace ScopeLint

structure Span.Within (length : Int) (span : Span) : Prop where
  start : 0 ≤ span.start.byte
  ordered : span.start.byte ≤ span.stop.byte
  stop : span.stop.byte ≤ length

theorem Text.lt_of_between {source : Text} {start stop : Int} {chars : List Char} (nonempty : chars ≠ [])
    (shown : source.between start stop = chars) : start.toNat < stop.toNat := by
  refine Nat.lt_of_not_le fun crossed => nonempty ?_
  rw [← shown, between, Text.slice, Nat.sub_eq_zero_of_le crossed, List.take_zero]
  rfl

namespace Tree

mutual

/-- A lexeme that lies, with all that it holds, in a text of the given length. -/
def Within (length : Int) : Tree → Prop
  | word span _ => span.Within length
  | symbol _ span _ => span.Within length
  | number span => span.Within length
  | string span parts => span.Within length ∧ WithinAll length parts
  | group _ span body => span.Within length ∧ WithinAll length body

def WithinAll (length : Int) : List Tree → Prop
  | [] => True
  | tree :: rest => tree.Within length ∧ WithinAll length rest

end

theorem Within.span {length : Int} {tree : Tree} (within : tree.Within length) :
    tree.span.Within length := by
  cases tree with
  | word | symbol | number =>
      rw [Within] at within
      exact within
  | string | group =>
      rw [Within] at within
      exact within.1

theorem Level.le {source : Text} {start stop : Int} {trees : List Tree}
    (level : Level source start stop trees) : start ≤ stop := by
  induction trees generalizing start with
  | nil =>
      rw [Level] at level
      exact level.1
  | cons tree rest induction =>
      rw [Level] at level
      obtain ⟨first, width, -, -, -, later⟩ := level
      have bound := induction later
      omega

theorem Parts.le {source : Text} {start stop : Int} {trees : List Tree}
    (parts : Parts source start stop trees) : start ≤ stop := by
  induction trees generalizing start with
  | nil =>
      rw [Parts] at parts
      exact parts
  | cons tree rest induction =>
      rw [Parts] at parts
      obtain ⟨first, width, -, later⟩ := parts
      have bound := induction later
      omega

theorem Quotes.ne_nil {opening closing : List Char} (quotes : Quotes opening closing) :
    opening ≠ [] ∧ closing ≠ [] := by
  cases quotes <;> simp

mutual

theorem within_of_covers {source : Text} (tree : Tree) (within : tree.span.Within source.length)
    (covers : Covers source tree) : tree.Within source.length := by
  cases tree with
  | word | symbol | number =>
      rw [Within]
      exact within
  | string span parts =>
      rw [Covers] at covers
      obtain ⟨first, last, opening, closing, quotes, before, behind, inside⟩ := covers
      have low := Text.lt_of_between quotes.ne_nil.1 before
      have high := Text.lt_of_between quotes.ne_nil.2 behind
      obtain ⟨start, ordered, stop⟩ : span.Within source.length := within
      rw [Within]
      exact ⟨⟨start, ordered, stop⟩, within_of_parts parts (by omega) (by omega) inside⟩
  | group delimiter span body =>
      rw [Covers] at covers
      obtain ⟨first, last, before, behind, inside⟩ := covers
      have low := Text.lt_of_between (List.cons_ne_nil _ _) before
      have high := Text.lt_of_between (List.cons_ne_nil _ _) behind
      obtain ⟨start, ordered, stop⟩ : span.Within source.length := within
      rw [Within]
      exact ⟨⟨start, ordered, stop⟩, within_of_level body (by omega) (by omega) inside⟩

theorem within_of_level {source : Text} {start stop : Int} (trees : List Tree) (low : 0 ≤ start)
    (high : stop ≤ source.length) (level : Level source start stop trees) :
    WithinAll source.length trees := by
  cases trees with
  | nil => rw [WithinAll]; trivial
  | cons tree rest =>
      rw [Level] at level
      obtain ⟨first, width, -, covers, -, later⟩ := level
      have bound := later.le
      rw [WithinAll]
      exact ⟨within_of_covers tree ⟨by omega, by omega, by omega⟩ covers,
        within_of_level rest (by omega) high later⟩

theorem within_of_parts {source : Text} {start stop : Int} (trees : List Tree) (low : 0 ≤ start)
    (high : stop ≤ source.length) (parts : Parts source start stop trees) :
    WithinAll source.length trees := by
  cases trees with
  | nil => rw [WithinAll]; trivial
  | cons tree rest =>
      rw [Parts] at parts
      obtain ⟨first, width, covers, later⟩ := parts
      have bound := later.le
      rw [WithinAll]
      exact ⟨within_of_covers tree ⟨by omega, by omega, by omega⟩ covers,
        within_of_parts rest (by omega) high later⟩

end

theorem readTrees_of_read {source : Text} {trees : List Tree} (accepted : read source = .ok trees) :
    readTrees source.stop (source.glyphs.length + 1) source.glyphs = .ok (trees, []) := by
  rw [read] at accepted
  split at accepted
  next => cases accepted
  next found outcome =>
    obtain rfl := Except.ok.inj accepted
    exact outcome
  next => cases accepted

theorem laid_of_read {source : Text} {trees : List Tree} (accepted : read source = .ok trees) :
    Laid source [] source.glyphs trees :=
  (readers_laid source _).1 _ _ _ (List.suffix_refl _) (readTrees_of_read accepted)

theorem WithinAll.suffix {length : Int} {trees left : List Tree} (within : WithinAll length trees)
    (part : left <:+ trees) : WithinAll length left := by
  induction trees with
  | nil => rwa [List.suffix_nil.mp part]
  | cons tree rest induction =>
      rcases List.suffix_cons_iff.mp part with same | later
      · rwa [same]
      · rw [WithinAll] at within
        exact induction within.2 later

theorem within_of_read {source : Text} {trees : List Tree} (accepted : read source = .ok trees) :
    WithinAll source.length trees := by
  have level := (laid_of_read accepted).level (List.suffix_refl _)
  rw [Text.placeOf_glyphs] at level
  exact within_of_level trees (Int.le_refl 0) (Int.le_refl _) level

end Tree

end ScopeLint
