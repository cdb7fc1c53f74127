import Mathlib.Data.List.Basic
import ScopeLint.Proofs.Project.Scripts

/-!
The scripts of a directory, wherever it stands. Which files below a root are taken is told by their
paths as seen from the root, with one exception: the mark of retired tests is looked for in the whole
path, so a root that carries it in its own path has no scripts at all.
-/

namespace ScopeLint

namespace FileTree

open ScopeLint.Path

variable {tree other : FileTree} {directory place : Text}

/-- Two directories hold the same: at every path below the one stands what stands there below the
other. -/
def SameBelow (tree : FileTree) (directory : Text) (other : FileTree) (place : Text) : Prop :=
  ∀ path, tree.entry? (directory ++ slash :: path) = other.entry? (place ++ slash :: path)

theorem increasing_listing (tree : FileTree) (directory : Text) :
    Increasing (tree.listing directory) := by
  apply tree.entries.increasing.filterMap
  intro left right less first leftSame second rightSame
  obtain ⟨path, leftBelow, rfl⟩ := Option.map_eq_some_iff.mp leftSame
  obtain ⟨later, rightBelow, rfl⟩ := Option.map_eq_some_iff.mp rightSame
  rw [Text.after_eq_some.mp leftBelow, Text.after_eq_some.mp rightBelow] at less
  exact Text.lt_of_append_lt less

theorem sameBelow_iff :
    tree.SameBelow directory other place ↔ tree.listing directory = other.listing place := by
  constructor
  · intro same
    apply Table.eq_of_mem_iff (increasing_listing tree directory) (increasing_listing other place)
    rintro ⟨path, entry⟩
    rw [mem_listing, mem_listing, same path]
  · intro same path
    apply Option.ext
    intro entry
    rw [← mem_listing, ← mem_listing, same]

end FileTree

namespace Workspace

open ScopeLint.FileTree ScopeLint.Path

variable {tree other : FileTree} {root place : Text} {excludes : Excludes}

def under (root path : Text) : Text := placeOf root ++ slash :: path

def isRetired (path : Text) : Bool := Text.contains path retiredTests

def isLeftOut (excludes : Excludes) (path : Text) : Bool := isRetired path || excludes.covers path

/-- A file below a root that is taken as a script, by its path as seen from the root. -/
structure Taken (tree : FileTree) (root : Text) (excludes : Excludes) (path : Text) : Prop where
  stands : ∃ entry, tree.entry? (under root path) = some entry ∧ entry ≠ .directory
  isScript : isScript path = true
  kept : isLeftOut excludes path = false
  entered : ∀ above ∈ ancestors path,
    isLeftOut excludes above = false ∧ isHidden (Path.base above) = false

/-- The mark of retired tests lies in a root or below it, since it holds no slash. -/
theorem isRetired_under (root path : Text) :
    isRetired (placeOf root ++ "/" ++ path) = (isRetired (placeOf root) || isRetired path) := by
  rw [Bool.eq_iff_iff, Bool.or_eq_true]
  simp only [isRetired, Text.contains_iff_part]
  rw [slash_text, List.append_assoc]
  have whole : slash ∉ retiredTests := by decide
  exact Text.part_append_mark whole

theorem isSkipped_eq (root path : Text) (excludes : Excludes) :
    isSkipped (placeOf root) excludes path =
      (isRetired (placeOf root) || isLeftOut excludes path) := by
  have retired := isRetired_under root path
  simp only [isRetired] at retired
  rw [isSkipped, retired, isLeftOut, Bool.or_assoc]
  rfl

/-- A root with the mark in its own path has no scripts. -/
theorem scripts_of_retired (retired : isRetired (placeOf root) = true) :
    scripts tree root excludes = [] := by
  rw [scripts_eq, List.filterMap_eq_nil_iff]
  rintro ⟨path, entry⟩ -
  simp [isSkipped_eq, retired]

def isTaken (excludes : Excludes) (path : Text) (entry : FileEntry) : Bool :=
  entry ≠ .directory && isScript path && !isLeftOut excludes path &&
    (ancestors path).all fun above => !isLeftOut excludes above && !isHidden (Path.base above)

def takenBelow (tree : FileTree) (root : Text) (excludes : Excludes) : List Text :=
  ((tree.listing (placeOf root)).filter fun found => isTaken excludes found.1 found.2).map Prod.fst

theorem mem_takenBelow {path : Text} :
    path ∈ takenBelow tree root excludes ↔ Taken tree root excludes path := by
  simp only [takenBelow, List.mem_map, List.mem_filter, Prod.exists, exists_and_right, exists_eq_right,
    mem_listing, isTaken, Bool.and_eq_true, List.all_eq_true, Bool.not_eq_true', decide_eq_true_eq]
  constructor
  · rintro ⟨entry, stands, ⟨⟨file, isScript⟩, kept⟩, entered⟩
    exact ⟨⟨entry, stands, file⟩, isScript, kept, entered⟩
  · rintro ⟨⟨entry, stands, file⟩, isScript, kept, entered⟩
    exact ⟨entry, stands, ⟨⟨file, isScript⟩, kept⟩, entered⟩

theorem increasing_takenBelow (tree : FileTree) (root : Text) (excludes : Excludes) :
    (takenBelow tree root excludes).Pairwise (· < ·) :=
  List.pairwise_map.mpr ((increasing_listing tree (placeOf root)).filter _)

theorem not_isTaken (clear : isRetired (placeOf root) = false) (path : Text) (entry : FileEntry) :
    (entry = .directory || !isScript path || isSkipped (placeOf root) excludes path ||
      (ancestors path).any (isSkippedDirectory (placeOf root) excludes)) =
        !isTaken excludes path entry := by
  have skipped (above : Text) : isSkippedDirectory (placeOf root) excludes above =
      (isLeftOut excludes above || isHidden (Path.base above)) := by
    rw [isSkippedDirectory, isSkipped_eq, clear, Bool.false_or]
  simp only [isTaken, isSkipped_eq, clear, Bool.false_or, funext skipped, Bool.not_and, Bool.not_not,
    List.not_all_eq_any_not, decide_not]

/-- Below any other root the scripts are those that are taken by their paths from the root. -/
theorem scripts_of_clear (clear : isRetired (placeOf root) = false) :
    scripts tree root excludes = (takenBelow tree root excludes).map (under root) := by
  rw [scripts_eq, takenBelow, List.map_map, ← List.filterMap_eq_map, List.filterMap_filter]
  apply List.filterMap_congr
  rintro ⟨path, entry⟩ -
  dsimp only
  rw [not_isTaken clear, slash_text, List.append_assoc]
  cases isTaken excludes path entry <;> rfl

theorem scripts_eq_taken (tree : FileTree) (root : Text) (excludes : Excludes) :
    scripts tree root excludes =
      if isRetired (placeOf root) then []
      else (takenBelow tree root excludes).map (under root) := by
  split
  next retired => exact scripts_of_retired retired
  next clear => exact scripts_of_clear (Bool.eq_false_iff.mpr clear)

/-- Where a directory stands does not decide which of its files are scripts, unless its own path
holds the mark of retired tests. Two roots hold the same: then the paths of the scripts below them,
as seen from the roots, are the same paths in the same order, those that are taken by what stands
there and by the path from the root alone; but a root with the mark in its path has no scripts. -/
theorem scripts_relocated (tree other : FileTree) (root place : Text) (excludes : Excludes)
    (same : tree.SameBelow (placeOf root) other (placeOf place)) :
    ∃ paths : List Text, paths.Pairwise (· < ·) ∧
      (∀ path, path ∈ paths ↔ Taken tree root excludes path) ∧
      (scripts tree root excludes =
        if isRetired (placeOf root) then [] else paths.map (under root)) ∧
      scripts other place excludes =
        if isRetired (placeOf place) then [] else paths.map (under place) := by
  have again : takenBelow other place excludes = takenBelow tree root excludes := by
    rw [takenBelow, takenBelow, sameBelow_iff.mp same]
  refine ⟨takenBelow tree root excludes, increasing_takenBelow tree root excludes,
    fun path => mem_takenBelow, scripts_eq_taken tree root excludes, ?_⟩
  rw [scripts_eq_taken other place excludes, again]

/-- One directory in three places, with a script to take, one in a hidden directory, one of retired
tests and one that is left out by a pattern. -/
def copies : FileTree :=
  ["/new", "/.copy", "/_Old_Tests"].foldl (fun tree root =>
    ["/.git/b.ps1", "/_Old_Tests/c.ps1", "/lib/a.PS1", "/vendor/d.ps1"].foldl (fun tree path =>
      tree.put (Text.ofString root ++ Text.ofString path) (.file "Run-It")) tree) .empty

def vendored : Excludes := (Excludes.parse ["vendor/**"]).toOption.getD []

/-- The name of the root itself hides nothing. -/
theorem copies_relocated :
    copies.SameBelow (placeOf "/new") copies (placeOf "/.copy") ∧
      ∃ paths : List Text, paths = [Text.ofString "lib/a.PS1"] ∧
        scripts copies "/new" vendored = paths.map (under "/new") ∧
        scripts copies "/.copy" vendored = paths.map (under "/.copy") := by
  have same : copies.SameBelow (placeOf "/new") copies (placeOf "/.copy") :=
    FileTree.sameBelow_iff.mpr (by decide +kernel)
  obtain ⟨paths, -, -, here, there⟩ := scripts_relocated copies copies "/new" "/.copy" vendored same
  rw [if_neg (by decide +kernel)] at here there
  refine ⟨same, paths, ?_, here, there⟩
  have found : scripts copies "/new" vendored = [under "/new" "lib/a.PS1"] := by decide +kernel
  obtain ⟨path, rfl, whole⟩ := List.map_eq_singleton_iff.mp (here.symm.trans found)
  rw [(List.cons.inj (List.append_cancel_left whole)).2]

/-- The same directory below a root that is called like retired tests has no scripts: no list of
paths below the roots serves both. -/
theorem copies_lost_by_place :
    copies.SameBelow (placeOf "/new") copies (placeOf "/_Old_Tests") ∧
      ¬ ∃ paths : List Text, scripts copies "/new" vendored = paths.map (under "/new") ∧
        scripts copies "/_Old_Tests" vendored = paths.map (under "/_Old_Tests") := by
  refine ⟨FileTree.sameBelow_iff.mpr (by decide +kernel), ?_⟩
  rintro ⟨paths, here, there⟩
  have found : scripts copies "/new" vendored = [under "/new" "lib/a.PS1"] := by decide +kernel
  have lost : scripts copies "/_Old_Tests" vendored = [] := by decide +kernel
  rw [lost, eq_comm, List.map_eq_nil_iff] at there
  rw [there, found] at here
  cases here

end Workspace

end ScopeLint
