import ScopeLint.Text.Basic

/-!
Tables keyed by text, kept in byte order of their keys with every key once. Listing a table is
therefore deterministic and needs no sorting, and two tables with the same bindings are equal.
-/

namespace ScopeLint

def Increasing {Value : Type} (entries : List (Text × Value)) : Prop :=
  entries.Pairwise fun left right => left.1 < right.1

/-- Bindings of texts to values, in increasing order of the texts. -/
structure Table (Value : Type) where
  entries : List (Text × Value)
  increasing : Increasing entries

namespace Table

variable {Value : Type}

theorem text_lt_of_not_lt_of_ne {left right : Text} (above : ¬ left < right)
    (distinct : left ≠ right) : right < left := by
  rcases List.le_total left right with below | below
  · exact absurd (List.le_antisymm below (List.not_lt.mp above)) distinct
  · rcases Decidable.em (right < left) with less | less
    · exact less
    · exact absurd (List.le_antisymm (List.not_lt.mp less) below) distinct

/-- Binds `key` to `value` at its place, replacing a binding that it has already. -/
def insertEntry (key : Text) (value : Value) : List (Text × Value) → List (Text × Value)
  | [] => [(key, value)]
  | (other, kept) :: rest =>
      if key < other then (key, value) :: (other, kept) :: rest
      else if key = other then (key, value) :: rest
      else (other, kept) :: insertEntry key value rest

theorem mem_insertEntry {key : Text} {value : Value} {entries : List (Text × Value)}
    {entry : Text × Value} (member : entry ∈ insertEntry key value entries) :
    entry = (key, value) ∨ entry ∈ entries := by
  induction entries with
  | nil => simpa [insertEntry] using member
  | cons head rest induction =>
      obtain ⟨other, kept⟩ := head
      simp only [insertEntry] at member
      split at member
      · simpa using member
      · split at member
        · rcases List.mem_cons.mp member with first | later
          · exact .inl first
          · exact .inr (List.mem_cons_of_mem _ later)
        · rcases List.mem_cons.mp member with first | later
          · exact .inr (first ▸ List.mem_cons_self)
          · exact (induction later).imp id (List.mem_cons_of_mem _)

theorem increasing_insertEntry {key : Text} {value : Value} {entries : List (Text × Value)}
    (increasing : Increasing entries) : Increasing (insertEntry key value entries) := by
  induction entries with
  | nil => simp [insertEntry, Increasing]
  | cons head rest induction =>
      obtain ⟨other, kept⟩ := head
      obtain ⟨first, later⟩ := List.pairwise_cons.mp increasing
      simp only [insertEntry]
      split
      next below =>
        refine List.pairwise_cons.mpr ⟨?_, increasing⟩
        intro entry member
        rcases List.mem_cons.mp member with rfl | member
        · exact below
        · exact List.lt_trans below (first entry member)
      next above =>
        split
        next same => exact List.pairwise_cons.mpr ⟨same ▸ first, later⟩
        next distinct =>
          refine List.pairwise_cons.mpr ⟨?_, induction later⟩
          intro entry member
          rcases mem_insertEntry member with rfl | member
          · exact text_lt_of_not_lt_of_ne above distinct
          · exact first entry member

def empty : Table Value := ⟨[], List.Pairwise.nil⟩

instance : EmptyCollection (Table Value) := ⟨empty⟩

instance : Inhabited (Table Value) := ⟨empty⟩

def insert (table : Table Value) (key : Text) (value : Value) : Table Value :=
  ⟨insertEntry key value table.entries, increasing_insertEntry table.increasing⟩

def erase (table : Table Value) (key : Text) : Table Value :=
  ⟨table.entries.filter fun entry => entry.1 ≠ key, table.increasing.filter _⟩

def get? (table : Table Value) (key : Text) : Option Value :=
  (table.entries.find? fun entry => entry.1 = key).map Prod.snd

def contains (table : Table Value) (key : Text) : Bool := (table.get? key).isSome

def keys (table : Table Value) : List Text := table.entries.map Prod.fst

def values (table : Table Value) : List Value := table.entries.map Prod.snd

def size (table : Table Value) : Nat := table.entries.length

/-- The table of a list of bindings, the last one of a key being the one that counts. -/
def ofList (bindings : List (Text × Value)) : Table Value :=
  bindings.foldl (fun table binding => table.insert binding.1 binding.2) empty

end Table

end ScopeLint
