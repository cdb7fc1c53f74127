import ScopeLint.Table

/-!
Tables as partial functions. Every operation is described by what it does to `get?`, and the
listing of a table holds exactly the bindings that `get?` finds.
-/

namespace ScopeLint.Table

variable {Value : Type}

theorem find_insertEntry (key other : Text) (value : Value) (entries : List (Text × Value)) :
    ((insertEntry key value entries).find? fun entry => entry.1 = other) =
      if other = key then some (key, value) else entries.find? fun entry => entry.1 = other := by
  induction entries with
  | nil => by_cases same : other = key <;> simp [insertEntry, same, eq_comm]
  | cons head rest induction =>
      obtain ⟨first, kept⟩ := head
      simp only [insertEntry]
      split
      next => by_cases same : other = key <;> simp [same, eq_comm]
      next =>
        split
        next equal => by_cases same : other = key <;> simp [← equal, same, eq_comm]
        next distinct =>
          by_cases same : other = key
          · subst same
            simp [Ne.symm distinct, induction]
          · simp only [if_neg same] at induction ⊢
            simp [List.find?_cons, induction]

theorem get_insert (table : Table Value) (key other : Text) (value : Value) :
    (table.insert key value).get? other = if other = key then some value else table.get? other := by
  simp only [get?, insert, find_insertEntry]
  split <;> rfl

@[simp]
theorem get_insert_self (table : Table Value) (key : Text) (value : Value) :
    (table.insert key value).get? key = some value := by
  simp [get_insert]

theorem get_insert_of_ne (table : Table Value) {key other : Text} (value : Value)
    (distinct : other ≠ key) : (table.insert key value).get? other = table.get? other := by
  simp [get_insert, distinct]

@[simp]
theorem get_empty (key : Text) : (∅ : Table Value).get? key = none := rfl

theorem get_erase (table : Table Value) (key other : Text) :
    (table.erase key).get? other = if other = key then none else table.get? other := by
  simp only [get?, erase, List.find?_filter]
  by_cases same : other = key
  · subst same
    simp
  · have kept (entry : Text × Value) :
        (decide (entry.1 ≠ key) = true ∧ decide (entry.1 = other) = true) ↔ entry.1 = other := by
      by_cases found : entry.1 = other
      · simp [found, same]
      · simp [found]
    simp only [kept, if_neg same]

theorem get_foldl_insert (bindings : List (Text × Value)) (table : Table Value) (key : Text) :
    (bindings.foldl (fun table binding => table.insert binding.1 binding.2) table).get? key =
      ((bindings.reverse.find? fun binding => binding.1 = key).map Prod.snd).or (table.get? key) := by
  induction bindings generalizing table with
  | nil => simp
  | cons binding rest induction =>
      rw [List.foldl_cons, induction, get_insert, List.reverse_cons, List.find?_append]
      cases rest.reverse.find? fun binding => binding.1 = key with
      | some later => simp
      | none =>
          by_cases same : binding.1 = key
          · simp [same]
          · simp [same, Ne.symm same]

theorem get_ofList (bindings : List (Text × Value)) (key : Text) :
    (ofList bindings).get? key =
      (bindings.reverse.find? fun binding => binding.1 = key).map Prod.snd := by
  rw [ofList, get_foldl_insert]
  exact Option.or_none

theorem find_entry {entries : List (Text × Value)} (increasing : Increasing entries)
    {entry : Text × Value} (member : entry ∈ entries) :
    (entries.find? fun other => other.1 = entry.1) = some entry := by
  induction entries with
  | nil => simp at member
  | cons head rest induction =>
      obtain ⟨first, later⟩ := List.pairwise_cons.mp increasing
      rcases List.mem_cons.mp member with rfl | member
      · simp
      · have distinct : head.1 ≠ entry.1 := by
          intro same
          have below := first entry member
          rw [same] at below
          exact List.lt_irrefl _ below
        simp [distinct, induction later member]

theorem get_eq_some_iff (table : Table Value) (key : Text) (value : Value) :
    table.get? key = some value ↔ (key, value) ∈ table.entries := by
  constructor
  · intro found
    obtain ⟨entry, found, same⟩ := Option.map_eq_some_iff.mp found
    have named : entry.1 = key := by simpa using List.find?_some found
    have shape : entry = (key, value) := Prod.ext named same
    exact shape ▸ List.mem_of_find?_eq_some found
  · intro member
    have found := find_entry table.increasing member
    simp only [get?, found, Option.map_some]

theorem contains_iff (table : Table Value) (key : Text) :
    table.contains key = true ↔ ∃ value, table.get? key = some value := by
  simp [contains, Option.isSome_iff_exists]

theorem mem_keys (table : Table Value) (key : Text) :
    key ∈ table.keys ↔ table.contains key = true := by
  rw [contains_iff]
  simp [keys, get_eq_some_iff]

theorem mem_values (table : Table Value) (value : Value) :
    value ∈ table.values ↔ ∃ key, table.get? key = some value := by
  simp [values, get_eq_some_iff]

theorem nodup_keys (table : Table Value) : table.keys.Nodup := by
  apply List.pairwise_map.mpr
  apply table.increasing.imp
  intro left right below same
  rw [same] at below
  exact List.lt_irrefl _ below

theorem eq_of_mem_iff {entries others : List (Text × Value)} (increasing : Increasing entries)
    (increasingOthers : Increasing others) (same : ∀ entry, entry ∈ entries ↔ entry ∈ others) :
    entries = others := by
  have distinct {bindings : List (Text × Value)} (ordered : Increasing bindings) : bindings.Nodup := by
    refine ordered.imp ?_
    rintro left right below rfl
    exact List.lt_irrefl _ below
  have perm := (List.perm_ext_iff_of_nodup (distinct increasing) (distinct increasingOthers)).mpr same
  refine perm.eq_of_pairwise ?_ increasing increasingOthers
  intro left right _ _ below above
  exact absurd above (List.lt_asymm below)

def without (table : Table Value) (removed : List Text) : Table Value :=
  ⟨table.entries.filter fun entry => !removed.elem entry.1, table.increasing.filter _⟩

theorem keys_without (table : Table Value) (removed : List Text) :
    (table.without removed).keys = table.keys.filter fun key => !removed.elem key := by
  simp only [keys, without, List.filter_map]
  rfl

end ScopeLint.Table
