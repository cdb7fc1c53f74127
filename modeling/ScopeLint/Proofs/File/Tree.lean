import ScopeLint.Proofs.File.Path
import ScopeLint.Proofs.Table

/-!
Looking paths up in a file system. In a tree where every entry stands in a directory, a path that
leads somewhere leads to an entry that is no link, and the path of that entry leads to itself; more
links change nothing, and not following the last one makes a difference only where it is a link.
-/

namespace ScopeLint.FileTree

open ScopeLint.Path

/-- Every entry has a name and stands in a directory. -/
def WellFormed (tree : FileTree) : Prop :=
  ∀ entry ∈ tree.entries.entries,
    IsName (lastName entry.1) ∧ entry.1 = parent entry.1 ++ slash :: lastName entry.1 ∧
      tree.entry? (parent entry.1) = some .directory

instance WellFormed.decidable (tree : FileTree) : Decidable tree.WellFormed :=
  inferInstanceAs (Decidable (∀ entry ∈ tree.entries.entries, _ ∧ _ ∧ _))

/-- Something stands at a path that is no link. -/
def Solid (tree : FileTree) (path : Text) : Prop :=
  ∃ entry, tree.entry? path = some entry ∧ ∀ target, entry ≠ .link target

structure Passes (tree : FileTree) (names : List Text) : Prop where
  named : AreNames names
  through : ∀ front name behind, names = front ++ name :: behind →
    tree.entry? (below front) = some .directory

variable {tree : FileTree} {path here found name working : Text} {entry : FileEntry}
  {names front : List Text} {links : Nat} {throughLast : Bool}
  {follow other : Text → List Text → Except FileFault Text}

theorem entry_nil (tree : FileTree) : tree.entry? [] = some .directory := rfl

theorem entry_of_ne_nil (nonempty : path ≠ []) : tree.entry? path = tree.entries.get? path :=
  if_neg nonempty

theorem solid_of_directory (stands : tree.entry? path = some .directory) : tree.Solid path :=
  ⟨.directory, stands, nofun⟩

theorem parent_concat (front : Text) (whole : slash ∉ name) :
    parent (front ++ slash :: name) = front := by
  have split : Text.splitOn slash (front ++ slash :: name) = Text.splitOn slash front ++ [name] := by
    rw [Text.splitOn_eq, List.splitOn_append_cons_self, ← Text.splitOn_eq,
      List.splitOn_eq_singleton whole]
  rw [parent, lastName_of_splitOn split, ← List.singleton_append, ← List.append_assoc,
    List.length_append, Nat.add_sub_cancel, List.take_left, List.dropLast_concat]

/-- An entry other than the root stands in a directory. -/
theorem WellFormed.exists_parent (formed : tree.WellFormed) (stands : tree.entry? path = some entry)
    (nonempty : path ≠ []) :
    ∃ front name, path = front ++ slash :: name ∧ IsName name ∧
      tree.entry? front = some .directory := by
  rw [entry_of_ne_nil nonempty, Table.get_eq_some_iff] at stands
  obtain ⟨named, split, above⟩ := formed _ stands
  exact ⟨parent path, lastName path, split, named, above⟩

theorem WellFormed.parent_directory (formed : tree.WellFormed)
    (stands : tree.entry? path = some .directory) : tree.entry? (parent path) = some .directory := by
  rcases eq_or_ne path [] with rfl | nonempty
  · rfl
  · obtain ⟨front, name, rfl, named, above⟩ := formed.exists_parent stands nonempty
    rw [parent_concat front named.whole]
    exact above

theorem Passes.concat (passes : tree.Passes names)
    (stands : tree.entry? (below names) = some .directory) (named : IsName name) :
    tree.Passes (names ++ [name]) := by
  refine ⟨areNames_concat.mpr ⟨passes.named, named⟩, ?_⟩
  intro front next behind split
  rcases List.eq_nil_or_concat behind with rfl | ⟨middle, last, rfl⟩
  · obtain ⟨rfl, -⟩ := List.append_inj' split rfl
    exact stands
  · rw [List.concat_eq_append, ← List.cons_append, ← List.append_assoc] at split
    exact passes.through front next middle (List.append_inj' split rfl).1

/-- Whatever stands in a tree is reached through directories. -/
theorem WellFormed.exists_names (formed : tree.WellFormed) {path : Text} {entry : FileEntry}
    (stands : tree.entry? path = some entry) : ∃ names, path = below names ∧ tree.Passes names := by
  rcases eq_or_ne path [] with empty | nonempty
  · exact ⟨[], empty, List.forall_mem_nil _, by simp⟩
  · obtain ⟨front, name, split, named, above⟩ := formed.exists_parent stands nonempty
    have shorter : front.length < path.length := by
      rw [split]
      simp
    obtain ⟨names, rfl, passes⟩ := formed.exists_names above
    exact ⟨names ++ [name], by rw [split, below_concat], passes.concat above named⟩
termination_by path.length

theorem walk_below {rest : List Text} (passes : tree.Passes (front ++ names))
    (solid : tree.Solid (below (front ++ names))) :
    tree.walk throughLast follow (below front) (names ++ rest) =
      tree.walk throughLast follow (below (front ++ names)) rest := by
  induction names generalizing front with
  | nil => rw [List.append_nil, List.nil_append]
  | cons name names induction =>
      have split : front ++ name :: names = (front ++ [name]) ++ names := by simp
      have named := passes.named name (by simp)
      have start := passes.through front name names rfl
      have step : below front ++ Text.ofString "/" ++ name = below (front ++ [name]) := by
        rw [below_concat, slash_text, List.append_assoc]
        rfl
      have next : tree.Solid (below (front ++ [name])) := by
        cases names with
        | nil => exact solid
        | cons second names =>
            exact solid_of_directory (passes.through (front ++ [name]) second names (by simp))
      obtain ⟨entry, stands, plain⟩ := next
      rw [split] at passes solid ⊢
      rw [← induction passes solid, List.cons_append, walk.eq_2]
      simp only [start, ne_eq, not_true_eq_false, if_false, named.nonempty, named.notHere,
        named.notUp, decide_false, Bool.or_false, Bool.false_eq_true, step, stands]

/-- The places of a walk are directories, and where it ends is no link. -/
theorem solid_of_walk (formed : tree.WellFormed)
    (follows : ∀ here names found, tree.entry? here = some .directory →
      follow here names = .ok found → tree.Solid found)
    (start : tree.Solid here) (leads : tree.walk true follow here names = .ok found) :
    tree.Solid found := by
  induction names generalizing here with
  | nil =>
      obtain rfl := Except.ok.inj leads
      exact start
  | cons name rest induction =>
      rw [walk.eq_2] at leads
      split at leads
      next => cases leads
      next inside =>
        have stands : tree.entry? here = some .directory := Decidable.not_not.mp inside
        split at leads
        next => exact induction start leads
        next =>
          split at leads
          next => exact induction (solid_of_directory (formed.parent_directory stands)) leads
          next =>
            dsimp only at leads
            split at leads
            next => cases leads
            next target link =>
              rw [if_neg (by simp)] at leads
              apply follows _ _ _ _ leads
              split
              next => rfl
              next => exact stands
            next entry plain found => exact induction ⟨entry, found, plain⟩ leads

theorem solid_of_resolveNames (formed : tree.WellFormed) (start : tree.Solid here)
    (leads : tree.resolveNames true links here names = .ok found) : tree.Solid found := by
  induction links generalizing here names found with
  | zero =>
      apply solid_of_walk formed _ start leads
      intro here names found stands follows
      cases follows
  | succ links induction =>
      apply solid_of_walk formed _ start leads
      intro here names found stands follows
      exact induction (solid_of_directory stands) follows

/-- Two walks over the same names part at a link only: `related` holds of where the first one ends
and of how the second one ends if it does so when both are handed to be followed, and when the
second one stops at a link. -/
theorem walk_related (related : Text → Except FileFault Text → Prop)
    (same : ∀ found, related found (.ok found))
    (follows : ∀ here names found, follow here names = .ok found → related found (other here names))
    (stops : throughLast = false → ∀ found next target, tree.entry? next = some (.link target) →
      related found (.ok next))
    (leads : tree.walk true follow here names = .ok found) :
    related found (tree.walk throughLast other here names) := by
  induction names generalizing here with
  | nil => exact Except.ok.inj leads ▸ same here
  | cons name rest induction =>
      rw [walk.eq_2] at leads ⊢
      split at leads
      next => cases leads
      next inside =>
        rw [if_neg inside]
        split at leads
        next empty =>
          rw [if_pos empty]
          exact induction leads
        next named =>
          rw [if_neg named]
          split at leads
          next up =>
            rw [if_pos up]
            exact induction leads
          next down =>
            rw [if_neg down]
            dsimp only at leads ⊢
            split at leads
            next => cases leads
            next target link =>
              rw [if_neg (by simp)] at leads
              split
              next ends =>
                have last : throughLast = false := by simp_all
                exact stops last found _ target link
              next => exact follows _ _ _ leads
            next entry plain stands => exact induction leads

theorem resolveNames_succ (leads : tree.resolveNames true links here names = .ok found) :
    tree.resolveNames true (links + 1) here names = .ok found := by
  induction links generalizing here names found with
  | zero =>
      apply walk_related (fun found outcome => outcome = .ok found) _ _ _ leads
      · exact fun found => rfl
      · intro here names found follows
        cases follows
      · intro last
        cases last
  | succ links induction =>
      apply walk_related (fun found outcome => outcome = .ok found) _ _ _ leads
      · exact fun found => rfl
      · exact fun here names found follows => induction follows
      · intro last
        cases last

theorem resolveNames_le {more : Nat} (within : links ≤ more)
    (leads : tree.resolveNames true links here names = .ok found) :
    tree.resolveNames true more here names = .ok found := by
  induction within with
  | refl => exact leads
  | step within induction => exact resolveNames_succ induction

/-- A path leads to a link when its last name is not followed. -/
def EndsInLink (tree : FileTree) (outcome : Except FileFault Text) : Prop :=
  ∃ place target, outcome = .ok place ∧ tree.entry? place = some (.link target)

theorem resolveNames_last (leads : tree.resolveNames true links here names = .ok found) :
    tree.resolveNames false links here names = .ok found ∨
      tree.EndsInLink (tree.resolveNames false links here names) := by
  induction links generalizing here names found with
  | zero =>
      apply walk_related (fun found outcome => outcome = .ok found ∨ tree.EndsInLink outcome) _ _ _ leads
      · exact fun found => .inl rfl
      · intro here names found follows
        cases follows
      · exact fun _ found place target link => .inr ⟨place, target, rfl, link⟩
  | succ links induction =>
      apply walk_related (fun found outcome => outcome = .ok found ∨ tree.EndsInLink outcome) _ _ _ leads
      · exact fun found => .inl rfl
      · exact fun here names found follows => induction follows
      · exact fun _ found place target link => .inr ⟨place, target, rfl, link⟩

theorem resolve_le {more : Nat} (within : links ≤ more)
    (leads : tree.resolve working links true path = .ok found) :
    tree.resolve working more true path = .ok found := by
  rw [resolve] at leads ⊢
  split at leads
  next => cases leads
  next linked =>
    rw [if_neg linked]
    exact resolveNames_le within leads

theorem resolve_last (leads : tree.resolve working links true path = .ok found) :
    tree.resolve working links false path = .ok found ∨
      tree.EndsInLink (tree.resolve working links false path) := by
  rw [resolve] at leads
  split at leads
  next => cases leads
  next linked =>
    rw [resolve, if_neg linked]
    exact resolveNames_last leads

theorem solid_of_resolve (formed : tree.WellFormed)
    (leads : tree.resolve working links true path = .ok found) : tree.Solid found := by
  rw [resolve] at leads
  split at leads
  next => cases leads
  next => exact solid_of_resolveNames formed (solid_of_directory rfl) leads

theorem shown_below (names : List Text) : shown (below names) = ofNames true names := by
  cases names with
  | nil => decide
  | cons name rest =>
      rw [ofNames_eq (List.cons_ne_nil _ _)]
      exact if_neg (List.cons_ne_nil _ _)

theorem resolveNames_of_walk
    (walks : ∀ follow, tree.walk throughLast follow here names = .ok found) :
    tree.resolveNames throughLast links here names = .ok found := by
  cases links with
  | zero => exact walks _
  | succ links => exact walks _

/-- The path of an entry that is no link leads to itself. -/
theorem resolve_shown (formed : tree.WellFormed) (solid : tree.Solid path) :
    tree.resolve working links throughLast (shown path) = .ok path := by
  obtain ⟨entry, stands, plain⟩ := solid
  obtain ⟨names, rfl, passes⟩ := formed.exists_names stands
  simp only [shown_below, resolve, if_neg (ofNames_ne_nil names), isAbsolute_ofNames, if_true]
  apply resolveNames_of_walk
  intro follow
  by_cases root : names = []
  · subst root
    -- A single slash has an empty name on either side.
    have blank : Text.splitOn slash (ofNames true []) = [[], []] := by decide
    rw [blank]
    simp [walk, entry_nil, below]
  · have start : tree.walk throughLast follow [] ([] :: names) =
        tree.walk throughLast follow (below []) (names ++ []) := by
      rw [List.append_nil, walk.eq_2, entry_nil, if_neg (by simp), if_pos (by simp)]
      rfl
    rw [ofNames_eq root, splitOn_below passes.named.whole, start, walk_below passes ⟨entry, stands, plain⟩]
    rfl

theorem absolute_shown (formed : tree.WellFormed) (stands : tree.entry? path = some entry) :
    absolute working (shown path) = shown path := by
  obtain ⟨names, rfl, passes⟩ := formed.exists_names stands
  rw [shown_below, absolute, if_pos (isAbsolute_ofNames names), clean_ofNames passes.named]

theorem canonical_of_resolve (clean : absolute working path = path)
    (leads : tree.resolve working accessLinks true path = .ok found) :
    tree.canonical working path = shown found := by
  have further := resolve_le (show accessLinks ≤ canonicalLinks by decide) leads
  simp only [canonical, clean, further]

theorem canonical_canonical (formed : tree.WellFormed) (rooted : isAbsolute working = true) (path : Text) :
    tree.canonical working (tree.canonical working path) = tree.canonical working path := by
  obtain ⟨names, all, clean⟩ := exists_absolute rooted path
  have again : absolute working (ofNames true names) = ofNames true names := by
    rw [absolute, if_pos (isAbsolute_ofNames names), clean_ofNames all]
  cases leads : tree.resolve working canonicalLinks true (ofNames true names) with
  | error fault =>
      have kept : tree.canonical working path = ofNames true names := by
        simp only [canonical, clean, leads]
      rw [kept]
      simp only [canonical, again, leads]
  | ok found =>
      have moved : tree.canonical working path = shown found := by
        simp only [canonical, clean, leads]
      obtain ⟨entry, stands, plain⟩ := solid_of_resolve formed leads
      rw [moved]
      simp only [canonical, absolute_shown formed stands, resolve_shown formed ⟨entry, stands, plain⟩]

theorem read_eq_ok {text : Text} : tree.read working path = .ok text ↔
    ∃ found, tree.resolve working accessLinks true path = .ok found ∧
      tree.entry? found = some (.file text) := by
  rw [read]
  cases tree.resolve working accessLinks true path with
  | error fault => simp
  | ok found =>
      simp only [Except.ok.injEq, exists_eq_left']
      split
      next content stands => simp [stands]
      next entry other stands => simpa [stands] using other text
      next missing => simp [missing]

/-- The file that a path leads to is read under its canonical path as well. -/
theorem read_canonical {text : Text} (formed : tree.WellFormed) (clean : absolute working path = path)
    (reads : tree.read working path = .ok text) :
    tree.read working (tree.canonical working path) = .ok text := by
  obtain ⟨found, leads, stands⟩ := read_eq_ok.mp reads
  rw [canonical_of_resolve clean leads, read_eq_ok]
  exact ⟨found, resolve_shown formed ⟨_, stands, nofun⟩, stands⟩

theorem mem_listing {directory inner : Text} :
    (inner, entry) ∈ tree.listing directory ↔
      tree.entry? (directory ++ slash :: inner) = some entry := by
  have nonempty : directory ++ slash :: inner ≠ [] := by simp
  have start : directory ++ Text.ofString "/" ++ inner = directory ++ slash :: inner := by
    rw [slash_text, List.append_assoc]
    rfl
  rw [entry_of_ne_nil nonempty, Table.get_eq_some_iff, listing, List.mem_filterMap]
  constructor
  · rintro ⟨⟨path, stands⟩, member, same⟩
    obtain ⟨rest, after, pair⟩ := Option.map_eq_some_iff.mp same
    obtain ⟨rfl, rfl⟩ := Prod.mk.inj pair
    rw [← start, ← Text.after_eq_some.mp after]
    exact member
  · intro member
    refine ⟨_, member, ?_⟩
    simp [Text.after_eq_some.mpr start.symm]

end ScopeLint.FileTree
