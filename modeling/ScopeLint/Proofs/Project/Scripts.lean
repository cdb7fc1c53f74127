import ScopeLint.Proofs.File.Tree
import ScopeLint.Project.Workspace

/-!
The root of a workspace and the scripts below it, as entries of the file system.
-/

namespace ScopeLint.Workspace

open ScopeLint.FileTree ScopeLint.Path

variable {workspace : Workspace} {tree : FileTree} {root path script : Text} {excludes : Excludes}

/-- The canonical path of a root as it is looked up, which is empty for the root of all. -/
def placeOf (root : Text) : Text := if root = Text.ofString "/" then [] else root

theorem placeOf_shown {found : Text} (formed : tree.WellFormed) (solid : tree.Solid found) :
    placeOf (shown found) = found := by
  obtain ⟨entry, stands, -⟩ := solid
  rw [placeOf, shown]
  rcases eq_or_ne found [] with empty | nonempty
  · rw [if_pos empty, if_pos rfl, empty]
  · obtain ⟨front, name, rfl, named, -⟩ := formed.exists_parent stands nonempty
    rw [if_neg nonempty, if_neg]
    intro same
    rw [slash_text] at same
    have length := congrArg List.length same
    have more := List.length_pos_iff.mpr named.nonempty
    simp only [List.length_append, List.length_cons, List.length_nil] at length
    omega

/-- A script stands below the root and is no directory, has the extension, and neither it nor a
directory on the way to it is left out. -/
structure Found (tree : FileTree) (root : Text) (excludes : Excludes) (inner : Text) : Prop where
  stands : ∃ entry, tree.entry? (placeOf root ++ slash :: inner) = some entry
  isScript : isScript inner = true
  kept : isSkipped (placeOf root) excludes inner = false
  entered : ∀ above ∈ FileTree.ancestors inner,
    isSkippedDirectory (placeOf root) excludes above = false

theorem scripts_eq (tree : FileTree) (root : Text) (excludes : Excludes) :
    scripts tree root excludes = (tree.listing (placeOf root)).filterMap fun (path, entry) =>
      if entry = .directory || !Workspace.isScript path || isSkipped (placeOf root) excludes path
        || (FileTree.ancestors path).any (isSkippedDirectory (placeOf root) excludes)
      then none
      else some (placeOf root ++ "/" ++ path) := rfl

theorem found_of_mem_scripts (member : script ∈ scripts tree root excludes) :
    ∃ inner, script = placeOf root ++ slash :: inner ∧ Found tree root excludes inner := by
  rw [scripts_eq] at member
  obtain ⟨⟨inner, entry⟩, listed, taken⟩ := List.mem_filterMap.mp member
  obtain ⟨kept, same⟩ := Option.ite_none_left_eq_some.mp taken
  simp only [Bool.or_eq_true, not_or, Bool.not_eq_true, Bool.not_eq_false', List.any_eq_false] at kept
  obtain ⟨⟨⟨-, isScript⟩, kept⟩, entered⟩ := kept
  refine ⟨inner, ?_, ⟨entry, mem_listing.mp listed⟩, isScript, kept, entered⟩
  rw [← Option.some.inj same, slash_text, List.append_assoc]
  rfl

theorem absolute_script {working : Text} (formed : tree.WellFormed)
    (member : script ∈ scripts tree root excludes) : absolute working script = script := by
  obtain ⟨inner, rfl, found⟩ := found_of_mem_scripts member
  obtain ⟨entry, stands⟩ := found.stands
  have written : shown (placeOf root ++ slash :: inner) = placeOf root ++ slash :: inner :=
    if_neg (by simp)
  rw [← written]
  exact absolute_shown formed stands

theorem root_eq_ok (rooted : isAbsolute workspace.working = true)
    (accepted : workspace.root path = .ok root) :
    ∃ found,
      workspace.tree.resolve workspace.working accessLinks true (absolute workspace.working path) =
        .ok found ∧
      workspace.tree.entry? found = some .directory ∧ root = shown found := by
  obtain ⟨names, all, clean⟩ := exists_absolute rooted path
  have again : absolute workspace.working (absolute workspace.working path) =
      absolute workspace.working path := by
    rw [clean, absolute, if_pos (isAbsolute_ofNames names), clean_ofNames all]
  simp only [Workspace.root] at accepted
  split at accepted
  next => cases accepted
  next stated =>
    rw [Workspace.stat, FileTree.stat] at stated
    split at stated
    next => cases stated
    next found leads =>
      split at stated
      next entry stands =>
        obtain rfl := Except.ok.inj stated
        refine ⟨found, leads, stands, ?_⟩
        rw [← Except.ok.inj accepted]
        exact canonical_of_resolve again leads
      next => cases stated
  next => cases accepted

end ScopeLint.Workspace
