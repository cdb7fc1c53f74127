import ScopeLint.Proofs.Project.Relocation

/-!
The names that reports give to files. A path below the root is named as seen from the root, any other
path by itself, and a name looked up from the root leads to its file again, so no two files share one.
What is outside is told by two dots at the front of the relative path. A name of an entry can begin with
two dots as well, and a path behind such a name goes by its whole path although it lies below the root.
-/

namespace ScopeLint

namespace Path

structure IsPlace (path : Text) : Prop where
  rooted : isAbsolute path = true
  clean : clean path = path

variable {names more : List Text} {path : Text}

theorem IsPlace.exists_names (place : IsPlace path) :
    ∃ names, AreNames names ∧ path = ofNames true names := by
  obtain ⟨names, all, same⟩ := exists_clean place.rooted
  exact ⟨names, all, place.clean.symm.trans same⟩

theorem exists_common (names more : List Text) :
    ∃ common, names = common ++ (dropCommon names more).1 ∧ more = common ++ (dropCommon names more).2 := by
  induction names generalizing more with
  | nil => exact ⟨[], by cases more <;> exact ⟨rfl, rfl⟩⟩
  | cons left lefts induction =>
      cases more with
      | nil => exact ⟨[], rfl, rfl⟩
      | cons right rights =>
          rw [dropCommon]
          split
          next same =>
            obtain ⟨common, front, back⟩ := induction rights
            have second : right :: rights = right :: (common ++ (dropCommon lefts rights).2) :=
              congrArg (right :: ·) back
            exact ⟨left :: common, congrArg (left :: ·) front, same ▸ second⟩
          next => exact ⟨[], rfl, rfl⟩

theorem startsWith_join (first : Text) (rest : List Text) :
    (Text.join "/" (first :: rest)).startsWith first = true := by
  rw [Text.join_eq]
  apply List.isPrefixOf_iff_prefix.mpr
  cases rest with
  | nil => exact List.intercalate_singleton.symm ▸ List.prefix_refl first
  | cons next rest =>
      rw [List.intercalate_cons_cons, List.append_assoc]
      exact List.prefix_append first _

/-- The way to a path that is not below a root begins with a step up. -/
theorem relative_outside (all : AreNames names) (inner : AreNames more) (outside : ¬ names <+: more) :
    ∃ relative, relative? (ofNames true names) (ofNames true more) = some relative ∧
      relative.startsWith ".." = true := by
  have distinct : ofNames true names ≠ ofNames true more := by
    intro same
    have equal := congrArg Path.names same
    rw [names_ofNames all, names_ofNames inner] at equal
    exact outside (equal ▸ List.prefix_refl names)
  have target : targetNames (ofNames true more) = more := by
    rw [targetNames, if_neg, names_ofNames inner]
    intro same
    have absolute := isAbsolute_ofNames more
    rw [same] at absolute
    cases absolute
  obtain ⟨common, front, back⟩ := exists_common names more
  simp only [relative?, clean_ofNames all, clean_ofNames inner, if_neg distinct, isAbsolute_ofNames,
    names_ofNames all, target]
  generalize dropCommon names more = left at front back
  obtain ⟨lefts, rights⟩ := left
  cases lefts with
  | nil =>
      rw [List.append_nil] at front
      exact absurd ⟨rights, front ▸ back.symm⟩ outside
  | cons up ups =>
      have named : up ≠ Text.ofString ".." := (all up (by rw [front]; simp)).notUp
      cases rights with
      | nil => exact ⟨_, rfl, startsWith_join _ _⟩
      | cons down downs =>
          have ways := startsWith_join ".." (ups.map (fun _ => Text.ofString "..") ++ down :: downs)
          exact ⟨_, if_neg named, ways⟩

theorem not_isAbsolute_join (inner : AreNames more) (nonempty : more ≠ []) :
    isAbsolute (Text.join "/" more) = false := by
  rw [Bool.eq_false_iff, ne_eq, isAbsolute_iff]
  rintro ⟨rest, same⟩
  have split := splitOn_join inner.whole nonempty
  rw [← same, List.singleton_append, Text.splitOn_mark] at split
  exact (inner [] (split ▸ List.mem_cons_self)).nonempty rfl

end Path

namespace Workspace

open ScopeLint.Path

variable {names more : List Text} {relative : Text}

theorem placeOf_ofNames (all : AreNames names) : placeOf (ofNames true names) = below names := by
  rw [placeOf]
  split
  next root => rw [(ofNames_eq_root all).mp root]; rfl
  next other => exact ofNames_eq fun empty => other ((ofNames_eq_root all).mpr empty)

theorem under_ofNames (all : AreNames names) (nonempty : more ≠ []) :
    under (ofNames true names) (Text.join "/" more) = ofNames true (names ++ more) := by
  rw [under, placeOf_ofNames all, slash_join nonempty, ofNames_eq (by simp [nonempty]), below_append]

theorem ne_nil_of_under (all : AreNames names) (other : ofNames true more ≠ ofNames true names)
    (same : ofNames true more = under (ofNames true names) relative) : more ≠ [] := by
  rintro rfl
  have alone : slash :: [] = below names ++ slash :: relative := by
    rw [under, placeOf_ofNames all] at same
    exact same
  cases names with
  | nil => exact other rfl
  | cons name rest =>
      have length := congrArg List.length alone
      simp [below] at length

/-- A place below a root has more names than the root, and these make up the path from the root. -/
theorem exists_of_under (all : AreNames names) (inner : AreNames more)
    (other : ofNames true more ≠ ofNames true names)
    (same : ofNames true more = under (ofNames true names) relative) :
    ∃ rest, rest ≠ [] ∧ AreNames rest ∧ more = names ++ rest ∧ relative = Text.join "/" rest := by
  have nonempty := ne_nil_of_under all other same
  have split := congrArg (Text.splitOn slash) same
  rw [ofNames_eq nonempty, splitOn_below inner.whole, under, placeOf_ofNames all, Text.splitOn_eq,
    List.splitOn_append_cons_self, ← Text.splitOn_eq, ← Text.splitOn_eq, splitOn_below all.whole] at split
  obtain rfl : more = names ++ Text.splitOn slash relative := (List.cons.inj split).2
  refine ⟨_, ?_, (areNames_append.mp inner).2, rfl, (join_splitOn relative).symm⟩
  rw [Text.splitOn_eq]
  exact List.splitOn_ne_nil slash relative

end Workspace

namespace Project

open ScopeLint.Path
open Workspace (under under_ofNames exists_of_under)

variable {project : Project} {path relative : Text} {names more : List Text}

structure NamedBelow (project : Project) (path relative : Text) : Prop where
  leads : Path.relative? project.root path = some relative
  joined : Path.join project.root relative = path
  plain : isAbsolute relative = false
  name : project.displayName path = if relative.startsWith ".." then path else relative

theorem displayName_of_relative (root : IsPlace project.root)
    (leads : Path.relative? project.root path = some relative) :
    project.displayName path = if relative.startsWith ".." then path else relative := by
  have nonempty : project.root ≠ [] := by
    intro empty
    have rooted := root.rooted
    rw [empty] at rooted
    cases rooted
  rw [displayName, if_neg nonempty, leads]

theorem namedBelow (root : IsPlace project.root) (place : IsPlace path) (other : path ≠ project.root)
    (below : path = under project.root relative) : NamedBelow project path relative := by
  obtain ⟨names, all, rootNames⟩ := root.exists_names
  obtain ⟨more, inner, rfl⟩ := place.exists_names
  rw [rootNames] at below other
  obtain ⟨rest, nonempty, named, rfl, rfl⟩ := exists_of_under all inner other below
  have leads : Path.relative? project.root (ofNames true (names ++ rest)) =
      some (Text.join "/" rest) := by
    rw [rootNames]
    exact relative_ofNames all named nonempty
  refine ⟨leads, ?_, not_isAbsolute_join named nonempty, displayName_of_relative root leads⟩
  rw [rootNames, join_ofNames all named]

theorem displayName_outside (root : IsPlace project.root) (place : IsPlace path)
    (other : path ≠ project.root) (outside : ∀ relative, path ≠ under project.root relative) :
    project.displayName path = path := by
  obtain ⟨names, all, rootNames⟩ := root.exists_names
  obtain ⟨more, inner, rfl⟩ := place.exists_names
  have apart : ¬ names <+: more := by
    rintro ⟨rest, rfl⟩
    have nonempty : rest ≠ [] := by
      rintro rfl
      exact other (by rw [rootNames, List.append_nil])
    exact outside (Text.join "/" rest) (by rw [rootNames, under_ofNames all nonempty])
  obtain ⟨relative, leads, up⟩ := relative_outside all inner apart
  rw [← rootNames] at leads
  rw [displayName_of_relative root leads, if_pos up]

/-- The name of a place, looked up from the root, leads to the place. -/
theorem absolute_displayName (root : IsPlace project.root) (place : IsPlace path)
    (other : path ≠ project.root) : Path.absolute project.root (project.displayName path) = path := by
  have itself : Path.absolute project.root path = path := by
    rw [absolute, if_pos place.rooted, place.clean]
  by_cases below : ∃ relative, path = under project.root relative
  · obtain ⟨relative, below⟩ := below
    have named := namedBelow root place other below
    rw [named.name]
    split
    next => exact itself
    next => rw [absolute, if_neg (by simp [named.plain]), named.joined]
  · rw [displayName_outside root place other fun relative same => below ⟨relative, same⟩, itself]

/-- Names in reports identify files. A path below the root is named by the way that leads to it from the
root, unless this way begins with two dots: then it goes by its whole path, as every path does that is not
below the root. Different paths have different names. -/
theorem displayNames_identify (project : Project) (root : IsPlace project.root) :
    (∀ path relative, IsPlace path → path ≠ project.root → path = under project.root relative →
      Path.relative? project.root path = some relative ∧ Path.join project.root relative = path ∧
      project.displayName path = if relative.startsWith ".." then path else relative) ∧
    (∀ path, IsPlace path → path ≠ project.root → (∀ relative, path ≠ under project.root relative) →
      project.displayName path = path) ∧
    ∀ path other, IsPlace path → IsPlace other → path ≠ project.root → other ≠ project.root →
      project.displayName path = project.displayName other → path = other := by
  refine ⟨?_, fun path place other => displayName_outside root place other, ?_⟩
  · intro path relative place other below
    have named := namedBelow root place other below
    exact ⟨named.leads, named.joined, named.name⟩
  · intro path other place otherPlace apart otherApart same
    have leads := absolute_displayName root place apart
    rwa [same, absolute_displayName root otherPlace otherApart, eq_comm] at leads

/-- A project below a root beside which stands a directory of a longer name. -/
def depot : Project := .empty "/depot"

/-- Two dots count at the front of a relative path only, and a longer name does not pass for the root's. -/
theorem depot_displayNames :
    IsPlace depot.root ∧ depot.displayName "/depot/lib/..a.ps1" = "lib/..a.ps1" ∧
      depot.displayName "/depots/a.ps1" = "/depots/a.ps1" := by
  have root : IsPlace depot.root := ⟨by decide, by decide +kernel⟩
  have inside : IsPlace "/depot/lib/..a.ps1" := ⟨by decide, by decide +kernel⟩
  have beside : IsPlace "/depots/a.ps1" := ⟨by decide, by decide +kernel⟩
  obtain ⟨named, whole, -⟩ := displayNames_identify depot root
  obtain ⟨-, -, name⟩ := named "/depot/lib/..a.ps1" "lib/..a.ps1" inside (by decide) (by decide)
  refine ⟨root, name.trans (if_neg (by decide)), whole _ beside (by decide) fun relative same => ?_⟩
  have mark : (under depot.root relative)[6]? = some slash := rfl
  rw [← same] at mark
  exact absurd mark (by decide)

/-- A file directly below the root whose name begins with two dots does not go by its relative path. -/
theorem dotted_name_whole :
    IsPlace depot.root ∧ IsPlace "/depot/..a.ps1" ∧
      Text.ofString "/depot/..a.ps1" = under depot.root "..a.ps1" ∧
      depot.displayName "/depot/..a.ps1" = "/depot/..a.ps1" ∧
      depot.displayName "/depot/..a.ps1" ≠ "..a.ps1" := by
  have root : IsPlace depot.root := ⟨by decide, by decide +kernel⟩
  have inside : IsPlace "/depot/..a.ps1" := ⟨by decide, by decide +kernel⟩
  exact ⟨root, inside, by decide, by decide +kernel, by decide +kernel⟩

end Project

end ScopeLint
