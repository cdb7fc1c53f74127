import ScopeLint.Proofs.Lists
import ScopeLint.Text.Basic

/-!
Texts cut at a mark, as the library cuts lists. There is one piece more than there are marks, no
piece holds a mark, and the first one is what stands in front of the first mark. Texts cut behind a
start or in front of an ending are put together again.
-/

namespace ScopeLint.Text

theorem splitOn_eq (mark : UInt8) (text : Text) : splitOn mark text = List.splitOn mark text := by
  induction text with
  | nil => rfl
  | cons byte rest induction =>
      rw [splitOn, List.splitOn_cons_eq_if_modifyHead, induction]
      have nonempty := List.splitOn_ne_nil mark rest
      split
      next same => simp [same]
      next other =>
        rw [if_neg (by simpa using other)]
        cases pieces : List.splitOn mark rest with
        | nil => exact absurd pieces nonempty
        | cons first others => rfl

theorem join_eq (separator : Text) (pieces : List Text) :
    join separator pieces = separator.intercalate pieces := rfl

theorem exists_splitOn (mark : UInt8) (rest : Text) :
    ∃ first others, splitOn mark rest = first :: others ∧
      ∀ byte ≠ mark, splitOn mark (byte :: rest) = (byte :: first) :: others := by
  cases pieces : splitOn mark rest with
  | nil =>
      rw [splitOn_eq] at pieces
      exact absurd pieces (List.splitOn_ne_nil mark rest)
  | cons first others =>
      refine ⟨first, others, rfl, ?_⟩
      intro byte other
      rw [splitOn, if_neg other, pieces]

theorem splitOn_mark (mark : UInt8) (rest : Text) :
    splitOn mark (mark :: rest) = [] :: splitOn mark rest := by
  rw [splitOn, if_pos rfl]

theorem mem_of_splitOn (mark : UInt8) (text : Text) :
    ∀ piece ∈ splitOn mark text, ∀ byte ∈ piece, byte ∈ text ∧ byte ≠ mark := by
  induction text with
  | nil => simp [splitOn]
  | cons first rest induction =>
      obtain ⟨front, others, pieces, more⟩ := exists_splitOn mark rest
      intro piece member byte inside
      by_cases same : first = mark
      · rw [same, splitOn_mark] at member
        rcases List.mem_cons.mp member with rfl | member
        · cases inside
        · exact (induction piece member byte inside).imp_left (List.mem_cons_of_mem _)
      · rw [more first same] at member
        rw [pieces] at induction
        rcases List.mem_cons.mp member with rfl | member
        · rcases List.mem_cons.mp inside with rfl | inside
          · exact ⟨List.mem_cons_self, same⟩
          · exact (induction front List.mem_cons_self byte inside).imp_left (List.mem_cons_of_mem _)
        · exact (induction piece (List.mem_cons_of_mem _ member) byte inside).imp_left
            (List.mem_cons_of_mem _)

theorem length_splitOn (mark : UInt8) (text : Text) :
    (splitOn mark text).length = text.count mark + 1 := by
  induction text with
  | nil => rfl
  | cons byte rest induction =>
      obtain ⟨first, others, pieces, more⟩ := exists_splitOn mark rest
      by_cases same : byte = mark
      · rw [same, splitOn_mark, List.length_cons, induction, List.count_cons_self]
      · rw [more byte same, List.count_cons_of_ne same, ← induction, pieces]
        rfl

theorem head_splitOn (mark : UInt8) (text : Text) :
    (splitOn mark text)[0]? = some (text.takeWhile (· ≠ mark)) := by
  induction text with
  | nil => rfl
  | cons byte rest induction =>
      obtain ⟨first, others, pieces, more⟩ := exists_splitOn mark rest
      by_cases same : byte = mark
      · rw [same, splitOn_mark]
        simp
      · rw [pieces] at induction
        rw [more byte same, List.takeWhile_cons_of_pos (by simpa using same)]
        exact congrArg (fun found => some (byte :: found)) (Option.some.inj induction)

theorem exists_ending (text : Text) :
    ∃ ending, text = text.dropEnding [carriageReturn] ++ ending ∧
      (ending = [carriageReturn] ∨ ending = [] ∧ ¬ [carriageReturn] <:+ text) := by
  rw [dropEnding]
  split
  next ends =>
    obtain ⟨front, rfl⟩ := List.isSuffixOf_iff_suffix.mp ends
    exact ⟨[carriageReturn], by simp, .inl rfl⟩
  next goes =>
    refine ⟨[], (List.append_nil _).symm, .inr ⟨rfl, ?_⟩⟩
    intro ends
    exact goes (List.isSuffixOf_iff_suffix.mpr ends)

theorem after_eq_some {text start behind : Text} :
    after? text start = some behind ↔ text = start ++ behind := by
  induction start generalizing text with
  | nil =>
      rw [after?, Option.some.injEq]
      rfl
  | cons head start induction =>
      cases text with
      | nil => simp [after?]
      | cons byte rest =>
          rw [after?, List.cons_append, List.cons.injEq]
          split
          next same => rw [induction, and_iff_right same]
          next other => simp [other]

theorem cut?_append {mark : UInt8} {front : Text} (absent : mark ∉ front) (behind : Text) :
    cut? mark (front ++ mark :: behind) = some (front, behind) := by
  induction front with
  | nil => simp [cut?]
  | cons byte front induction =>
      rw [List.mem_cons, not_or] at absent
      rw [List.cons_append, cut?, if_neg (Ne.symm absent.1), induction absent.2]
      rfl

theorem exists_cut? {mark : UInt8} {text front behind : Text} (found : cut? mark text = some (front, behind)) :
    text = front ++ mark :: behind ∧ mark ∉ front := by
  induction text generalizing front with
  | nil => cases found
  | cons byte rest induction =>
      rw [cut?] at found
      split at found
      next same =>
        cases found
        exact ⟨by rw [same, List.nil_append], List.not_mem_nil⟩
      next other =>
        obtain ⟨⟨before, left⟩, inside, same⟩ := Option.map_eq_some_iff.mp found
        cases same
        obtain ⟨split, absent⟩ := induction inside
        exact ⟨by rw [split, List.cons_append], List.not_mem_cons_of_ne_of_not_mem (Ne.symm other) absent⟩

theorem contains_iff_part {text part : Text} : contains text part = true ↔ part <:+: text := by
  induction text with
  | nil => rw [contains, List.isEmpty_iff, List.infix_nil]
  | cons byte rest induction =>
      rw [contains, Bool.or_eq_true, List.isPrefixOf_iff_prefix, induction, List.infix_cons_iff]

/-- A part without a mark lies in front of the mark or behind it. -/
theorem part_append_mark {part front behind : Text} {mark : UInt8} (absent : mark ∉ part) :
    part <:+: front ++ mark :: behind ↔ part <:+: front ∨ part <:+: behind := by
  constructor
  · intro inside
    rcases List.infix_append_iff.mp inside with before | later | ⟨ending, start, rfl, ends, starts⟩
    · exact .inl before
    · rcases List.infix_cons_iff.mp later with starts | inner
      · rcases List.prefix_cons_iff.mp starts with rfl | ⟨rest, rfl, -⟩
        · exact .inl List.nil_infix
        · exact absurd List.mem_cons_self absent
      · exact .inr inner
    · -- A part that reached over the mark would hold it.
      rcases List.prefix_cons_iff.mp starts with rfl | ⟨rest, rfl, -⟩
      · rw [List.append_nil]
        exact .inl ends.isInfix
      · exact absurd (List.mem_append_right _ List.mem_cons_self) absent
  · rintro (before | later)
    · exact before.trans (List.prefix_append _ _).isInfix
    · exact later.trans ((List.suffix_cons _ _).trans (List.suffix_append _ _)).isInfix

theorem lt_of_append_lt {front left right : Text} (less : front ++ left < front ++ right) :
    left < right := by
  induction front with
  | nil => exact less
  | cons byte front induction =>
      rcases List.cons_lt_cons_iff.mp less with below | ⟨-, behind⟩
      · exact absurd below (UInt8.lt_irrefl _)
      · exact induction behind

theorem slice_append (source : Text) {start middle stop : Nat} (before : start ≤ middle)
    (behind : middle ≤ stop) :
    source.slice start stop = source.slice start middle ++ source.slice middle stop := by
  have width : stop - start = (middle - start) + (stop - middle) := by omega
  rw [slice, width, List.take_add, List.drop_drop, Nat.add_sub_cancel' before]
  rfl

theorem slice_append_drop {text : Text} {first last : Nat} (ordered : first ≤ last) :
    text.slice first last ++ text.drop last = text.drop first := by
  have rest : text.drop last = (text.drop first).drop (last - first) := by
    rw [List.drop_drop, Nat.add_sub_cancel' ordered]
  rw [slice, rest, List.take_append_drop]

theorem slice_middle (front middle behind : Text) :
    slice (front ++ (middle ++ behind)) front.length (front.length + middle.length) = middle := by
  rw [slice, List.drop_left, Nat.add_sub_cancel_left, List.take_left]

theorem length_slice {text : Text} {first last : Nat} (within : last ≤ text.length) :
    (text.slice first last).length = last - first := by
  rw [slice, List.length_take, List.length_drop]
  omega

end ScopeLint.Text
