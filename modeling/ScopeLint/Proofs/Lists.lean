import Mathlib.Data.List.Basic
import Mathlib.Data.List.TakeWhile

/-!
Facts about lists: what is taken off their ends, where an element of two lists in a row stands,
neighbours, and searches.
-/

namespace List

variable {Element Part : Type}

theorem take_length_sub_dropWhile (passes : Element → Bool) (elements : List Element) :
    elements.take (elements.length - (elements.dropWhile passes).length) = elements.takeWhile passes := by
  have whole := takeWhile_append_dropWhile (p := passes) (l := elements)
  have count := congrArg length whole
  rw [length_append] at count
  rw [← count, Nat.add_sub_cancel]
  calc elements.take (elements.takeWhile passes).length
      = (elements.takeWhile passes ++ elements.dropWhile passes).take (elements.takeWhile passes).length := by
        rw [whole]
    _ = elements.takeWhile passes := take_left

theorem length_takeWhile_append_cons_le (passes : Element → Bool) {element : Element}
    (stops : passes element = false) (front behind : List Element) :
    ((front ++ element :: behind).takeWhile passes).length ≤ front.length := by
  rw [takeWhile_append, takeWhile_cons_of_neg (by simp [stops]), append_nil]
  split
  next => exact Nat.le_refl _
  next => exact (List.takeWhile_prefix _).length_le

theorem dropWhile_dropWhile {first second : Element → Bool}
    (within : ∀ element, first element = true → second element = true) (elements : List Element) :
    (elements.dropWhile first).dropWhile second = elements.dropWhile second := by
  induction elements with
  | nil => rfl
  | cons element rest induction =>
      rw [dropWhile_cons]
      split
      next passed => rw [induction, dropWhile_cons_of_pos (within element passed)]
      next => rfl

theorem head?_dropWhile_fails (passes : Element → Bool) (elements : List Element) :
    ∀ element ∈ (elements.dropWhile passes).head?, passes element = false := by
  intro element first
  have stops := head?_dropWhile_not passes elements
  rwa [first] at stops

/-- What stays of a list when the end of it is dropped. -/
theorem reverse_dropWhile_iff {passes : Element → Bool} {elements kept : List Element} :
    (elements.reverse.dropWhile passes).reverse = kept ↔
      ∃ trail, elements = kept ++ trail ∧ (∀ element ∈ trail, passes element = true) ∧
        ∀ element ∈ kept.getLast?, passes element = false := by
  constructor
  · rintro rfl
    refine ⟨(elements.reverse.takeWhile passes).reverse, ?_, ?_, ?_⟩
    · rw [← reverse_append, takeWhile_append_dropWhile, reverse_reverse]
    · exact fun element member => mem_takeWhile_imp (mem_reverse.mp member)
    · rw [getLast?_reverse]
      exact head?_dropWhile_fails passes elements.reverse
  · rintro ⟨trail, rfl, blank, stops⟩
    rw [reverse_append, dropWhile_append_of_pos fun element member =>
      blank element (mem_reverse.mp member)]
    rcases eq_nil_or_concat kept with rfl | ⟨front, last, rfl⟩
    · rfl
    · rw [concat_eq_append, reverse_append, reverse_singleton, singleton_append,
        dropWhile_cons_of_neg (by simp [stops last (by simp)])]
      simp

/-- An element of two lists in a row is in the first or in the second. -/
theorem append_eq_append_cons {front rest before after : List Element} {element : Element}
    (split : front ++ rest = before ++ element :: after) :
    (∃ more, front = before ++ element :: more ∧ after = more ++ rest) ∨
      ∃ between, before = front ++ between ∧ rest = between ++ element :: after := by
  rcases append_eq_append_iff.mp split with ⟨between, same, behind⟩ | ⟨more, same, behind⟩
  · exact .inr ⟨between, same, behind⟩
  · cases more with
    | nil => exact .inr ⟨[], by simpa using same.symm, by simpa using behind.symm⟩
    | cons first more =>
        obtain ⟨rfl, rfl⟩ := cons.inj behind
        exact .inl ⟨more, same, rfl⟩

theorem pair_infix_iff {first second : Element} {elements : List Element} :
    [first, second] <:+: elements ↔ (first, second) ∈ elements.zip elements.tail := by
  induction elements with
  | nil => simp
  | cons head rest induction =>
      rw [infix_cons_iff, induction]
      cases rest with
      | nil => simp
      | cons next rest => simp [cons_prefix_cons]

/-- In a list that does not end with an element, the element stands before some other one. -/
theorem exists_pair_infix [DecidableEq Element] {element : Element} {elements : List Element}
    (member : element ∈ elements) (ends : elements.getLast? ≠ some element) :
    ∃ next ∈ elements, next ≠ element ∧ [element, next] <:+: elements := by
  induction elements with
  | nil => cases member
  | cons first rest induction =>
      cases rest with
      | nil =>
          obtain rfl := mem_singleton.mp member
          exact absurd rfl ends
      | cons second rest =>
          by_cases later : element ∈ second :: rest
          · obtain ⟨next, among, other, stands⟩ := induction later ends
            exact ⟨next, mem_cons_of_mem _ among, other, infix_cons stands⟩
          · obtain rfl : element = first := (mem_cons.mp member).resolve_right later
            refine ⟨second, by simp, ?_, ⟨[], rest, rfl⟩⟩
            rintro rfl
            exact later mem_cons_self

theorem findSome?_congr {elements : List Element} {left right : Element → Option Part}
    (same : ∀ element ∈ elements, left element = right element) :
    elements.findSome? left = elements.findSome? right := by
  induction elements with
  | nil => rfl
  | cons element rest induction =>
      rw [findSome?_cons, findSome?_cons, same element mem_cons_self,
        induction fun other member => same other (mem_cons_of_mem _ member)]

theorem find?_of_alone {wanted : Element → Bool} {elements : List Element} {element : Element}
    (alone : (elements.filter wanted).length ≤ 1) (listed : element ∈ elements)
    (fits : wanted element = true) : elements.find? wanted = some element := by
  have among : element ∈ elements.filter wanted := mem_filter.mpr ⟨listed, fits⟩
  rw [← head?_filter]
  cases found : elements.filter wanted with
  | nil => simp [found] at among
  | cons first rest =>
      rw [found] at alone among
      obtain rfl : rest = [] := length_eq_zero_iff.mp (by simpa using alone)
      rw [mem_singleton.mp among]
      rfl

theorem filterMap_map_of_comm {elements : List Element} {move : Element → Element}
    {part? : Element → Option Part} {moved : Part → Part}
    (same : ∀ element ∈ elements, part? (move element) = (part? element).map moved) :
    (elements.map move).filterMap part? = (elements.filterMap part?).map moved := by
  rw [filterMap_map, map_filterMap]
  exact filterMap_congr same

end List
