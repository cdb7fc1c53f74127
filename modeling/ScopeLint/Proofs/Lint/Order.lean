import ScopeLint.Lint.Diagnostic
import ScopeLint.Table

/-!
Sorting that keeps the order of ties, and the order of diagnostics. A sorted list is told by what it
holds of each group of ties, in order; so a stable sort does not see how groups were mixed before.
-/

namespace ScopeLint

section Stable

variable {Item : Type} {le : Item → Item → Bool}

/-- Two items of which neither comes before the other. -/
def isTied (le : Item → Item → Bool) (item other : Item) : Bool := le item other && le other item

variable (transitive : ∀ first second third, le first second → le second third → le first third)
  (total : ∀ first second, (le first second || le second first) = true)

include transitive in
theorem pairwise_filter_isTied (item : Item) (items : List Item) :
    (items.filter (isTied le item)).Pairwise fun first second => le first second = true := by
  apply List.pairwise_of_forall_mem_list
  intro first firstTied second secondTied
  have before := (Bool.and_eq_true_iff.mp (List.mem_filter.mp firstTied).2).2
  have behind := (Bool.and_eq_true_iff.mp (List.mem_filter.mp secondTied).2).1
  exact transitive _ _ _ before behind

include transitive total in
/-- Sorting keeps the ties of each item in their order. -/
theorem filter_isTied_mergeSort (item : Item) (items : List Item) :
    (items.mergeSort le).filter (isTied le item) = items.filter (isTied le item) := by
  have kept : (items.filter (isTied le item)).Sublist (items.mergeSort le) :=
    List.sublist_mergeSort transitive total (pairwise_filter_isTied transitive item items)
      List.filter_sublist
  have inside := kept.filter (isTied le item)
  rw [List.filter_filter, List.filter_congr fun _ _ => Bool.and_self _] at inside
  have same := (List.mergeSort_perm items le).filter (isTied le item)
  exact (inside.eq_of_length same.length_eq.symm).symm

include total in
theorem isTied_self (item : Item) : isTied le item item = true := by
  have either := total item item
  rw [Bool.or_self] at either
  simp [isTied, either]

include total in
theorem le_of_mem_sorted {head item : Item} {rest : List Item}
    (sorted : (head :: rest).Pairwise fun first second => le first second = true)
    (listed : item ∈ head :: rest) : le head item = true := by
  rcases List.mem_cons.mp listed with rfl | later
  · exact (Bool.and_eq_true_iff.mp (isTied_self total item)).1
  · exact (List.pairwise_cons.mp sorted).1 item later

include total in
theorem mem_iff_of_filter_isTied {items others : List Item}
    (ties : ∀ item, items.filter (isTied le item) = others.filter (isTied le item)) (item : Item) :
    item ∈ items ↔ item ∈ others := by
  have same := congrArg (item ∈ ·) (ties item)
  simpa [List.mem_filter, isTied_self total] using same

include total in
/-- Sorted lists with the same ties of every item are the same. -/
theorem eq_of_filter_isTied {items others : List Item}
    (sorted : items.Pairwise fun first second => le first second = true)
    (sortedOthers : others.Pairwise fun first second => le first second = true)
    (ties : ∀ item, items.filter (isTied le item) = others.filter (isTied le item)) :
    items = others := by
  induction items generalizing others with
  | nil =>
      symm
      apply List.eq_nil_iff_forall_not_mem.mpr
      intro item member
      exact absurd ((mem_iff_of_filter_isTied total ties item).mpr member) List.not_mem_nil
  | cons head rest induction =>
      have listed := mem_iff_of_filter_isTied total ties
      cases others with
      | nil => exact absurd ((listed head).mp List.mem_cons_self) List.not_mem_nil
      | cons first behind =>
          -- Each head comes before all of either list, so the heads tie, and ties stand in order.
          have tied : isTied le head first = true := Bool.and_eq_true_iff.mpr
            ⟨le_of_mem_sorted total sorted ((listed first).mpr List.mem_cons_self),
              le_of_mem_sorted total sortedOthers ((listed head).mp List.mem_cons_self)⟩
          have same := ties head
          rw [List.filter_cons_of_pos (isTied_self total head), List.filter_cons_of_pos tied] at same
          obtain ⟨rfl, -⟩ := List.cons.inj same
          have tails (item : Item) :
              rest.filter (isTied le item) = behind.filter (isTied le item) := by
            have whole := ties item
            rw [List.filter_cons, List.filter_cons] at whole
            split at whole
            · exact (List.cons.inj whole).2
            · exact whole
          rw [induction sorted.of_cons sortedOthers.of_cons tails]

include transitive total in
/-- A stable sort does not see how ties of different items were mixed. -/
theorem mergeSort_eq_of_filter_isTied {items others : List Item}
    (ties : ∀ item, items.filter (isTied le item) = others.filter (isTied le item)) :
    items.mergeSort le = others.mergeSort le := by
  apply eq_of_filter_isTied total (List.pairwise_mergeSort transitive total _)
    (List.pairwise_mergeSort transitive total _)
  intro item
  rw [filter_isTied_mergeSort transitive total, filter_isTied_mergeSort transitive total, ties]

def KeepsOrder (le : Item → Item → Bool) (change : Item → Option Item) : Prop :=
  ∀ item changed, change item = some changed → ∀ other,
    le changed other = le item other ∧ le other changed = le other item

include transitive total in
/-- Leaving items out and changing others may as well come before sorting. -/
theorem filterMap_mergeSort {change : Item → Option Item} (keeps : KeepsOrder le change)
    (items : List Item) :
    (items.mergeSort le).filterMap change = (items.filterMap change).mergeSort le := by
  apply eq_of_filter_isTied total ?_ (List.pairwise_mergeSort transitive total _)
  · intro item
    have tiesOf (list : List Item) : (list.filterMap change).filter (isTied le item) =
        (list.filter (isTied le item)).filterMap change := by
      rw [List.filter_filterMap, List.filterMap_filter]
      refine congrArg (fun choice => list.filterMap choice) (funext fun other => ?_)
      cases changed : change other with
      | none => simp
      | some result =>
          obtain ⟨before, behind⟩ := keeps other result changed item
          simp [Option.filter, isTied, before, behind]
    rw [filter_isTied_mergeSort transitive total, tiesOf, filter_isTied_mergeSort transitive total,
      tiesOf]
  · apply (List.pairwise_mergeSort transitive total items).filterMap
    intro first second sorted newFirst firstChanged newSecond secondChanged
    rw [(keeps first newFirst firstChanged newSecond).1, (keeps second newSecond secondChanged first).2]
    exact sorted

end Stable

namespace Diagnostic

/-- By file, then line, then column, then the name of the lint. -/
def Precedes (left right : Diagnostic) : Prop :=
  left.file < right.file ∨ left.file = right.file ∧
    (left.line < right.line ∨ left.line = right.line ∧
      (left.col < right.col ∨ left.col = right.col ∧ left.code ≤ right.code))

theorem le_iff (left right : Diagnostic) : left.le right = true ↔ left.Precedes right := by
  rw [le, Precedes]
  split
  next other => simp [other]
  next file =>
    have file := Decidable.not_not.mp file
    rw [file]
    split
    next other => simp [other, List.lt_irrefl]
    next line =>
      have line := Decidable.not_not.mp line
      rw [line]
      split
      next other => simp [other, List.lt_irrefl]
      next col => simp [Decidable.not_not.mp col, List.lt_irrefl]

theorem le_transitive (first second third : Diagnostic) (below : first.le second = true)
    (above : second.le third = true) : first.le third = true := by
  rw [le_iff] at below above ⊢
  rcases below with file | ⟨file, below⟩
  · rcases above with later | ⟨same, -⟩
    · exact .inl (List.lt_trans file later)
    · exact .inl (same ▸ file)
  · rcases above with later | ⟨same, above⟩
    · exact .inl (file ▸ later)
    refine .inr ⟨file.trans same, ?_⟩
    rcases below with line | ⟨line, below⟩
    · exact .inl (by omega)
    rcases above with later | ⟨same, above⟩
    · exact .inl (by omega)
    refine .inr ⟨line.trans same, ?_⟩
    rcases below with col | ⟨col, below⟩
    · exact .inl (by omega)
    rcases above with later | ⟨same, above⟩
    · exact .inl (by omega)
    exact .inr ⟨col.trans same, List.le_trans below above⟩

theorem le_total (left right : Diagnostic) : (left.le right || right.le left) = true := by
  rw [Bool.or_eq_true, le_iff, le_iff]
  by_cases file : left.file = right.file
  · rcases Int.lt_trichotomy left.line right.line with line | line | line
    · exact .inl (.inr ⟨file, .inl line⟩)
    · rcases Int.lt_trichotomy left.col right.col with col | col | col
      · exact .inl (.inr ⟨file, .inr ⟨line, .inl col⟩⟩)
      · rcases List.le_total left.code right.code with code | code
        · exact .inl (.inr ⟨file, .inr ⟨line, .inr ⟨col, code⟩⟩⟩)
        · exact .inr (.inr ⟨file.symm, .inr ⟨line.symm, .inr ⟨col.symm, code⟩⟩⟩)
      · exact .inr (.inr ⟨file.symm, .inr ⟨line.symm, .inl col⟩⟩)
    · exact .inr (.inr ⟨file.symm, .inl line⟩)
  · by_cases below : left.file < right.file
    · exact .inl (.inl below)
    · exact .inr (.inl (Table.text_lt_of_not_lt_of_ne below file))

theorem isTied_iff (left right : Diagnostic) :
    isTied le left right = true ↔ left.file = right.file ∧ left.line = right.line ∧
      left.col = right.col ∧ left.code = right.code := by
  rw [isTied, Bool.and_eq_true, le_iff, le_iff]
  constructor
  · rintro ⟨below, above⟩
    rcases below with file | ⟨file, below⟩
    · rcases above with later | ⟨same, -⟩
      · exact absurd later (List.lt_asymm file)
      · exact absurd file (same ▸ List.lt_irrefl _)
    have above := (above.resolve_left (file ▸ List.lt_irrefl _)).2
    have line : left.line = right.line := by omega
    have below := (below.resolve_left (by omega)).2
    have above := (above.resolve_left (by omega)).2
    have col : left.col = right.col := by omega
    exact ⟨file, line, col, List.le_antisymm (below.resolve_left (by omega)).2
      (above.resolve_left (by omega)).2⟩
  · rintro ⟨file, line, col, code⟩
    exact ⟨.inr ⟨file, .inr ⟨line, .inr ⟨col, code ▸ List.le_refl _⟩⟩⟩,
      .inr ⟨file.symm, .inr ⟨line.symm, .inr ⟨col.symm, code ▸ List.le_refl _⟩⟩⟩⟩

theorem sorted_sort (diagnostics : List Diagnostic) : (sort diagnostics).Pairwise Precedes := by
  apply (List.pairwise_mergeSort le_transitive le_total diagnostics).imp
  intro left right below
  exact (le_iff left right).mp below

end Diagnostic

end ScopeLint
