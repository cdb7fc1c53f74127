import ScopeLint.Project.Scope
import ScopeLint.Proofs.Project.Imports

/-!
What a key refers to in a file, said by plain recursion from a file to its imports and without
any table of scopes. It only makes sense for acyclic projects. The main facts are that a key is
visible exactly when some file within reach defines it, and that it then refers to the first
definition in such a file.
-/

namespace ScopeLint.Project

variable {project : Project}

def ownOrigin? (project : Project) (path : Text) (key : Key) : Option Origin :=
  (project.files.get? path).bind fun file =>
    (file.definitions.find? fun definition => definition.item.key = key).map fun definition =>
      ⟨path, definition⟩

/-- A file of the project that lists a definition of a key. -/
def Defines (project : Project) (path : Text) (key : Key) : Prop :=
  ∃ file, project.files.get? path = some file ∧
    ∃ definition ∈ file.definitions, definition.item.key = key

/-- What a key refers to in a file: a definition of the file itself, or else one of an import,
or else what it refers to in an import. Earlier definitions and imports win. -/
def visible (project : Project) (acyclic : project.Acyclic) (path : Text) (key : Key) :
    Option Origin :=
  (project.ownOrigin? path key).or
    (((project.presentImports path).findSome? fun next => project.ownOrigin? next key).or
      ((project.presentImports path).attach.findSome? fun next => visible project acyclic next.1 key))
termination_by acyclic.wellFounded.wrap path
decreasing_by exact next.2

theorem visible_eq (acyclic : project.Acyclic) (path : Text) (key : Key) :
    project.visible acyclic path key =
      (project.ownOrigin? path key).or
        (((project.presentImports path).findSome? fun next => project.ownOrigin? next key).or
          ((project.presentImports path).findSome? fun next => project.visible acyclic next key)) := by
  rw [visible]
  congr 2
  simp only [List.findSome?_subtype, List.unattach_attach]

theorem ownOrigin_eq_some {path : Text} {key : Key} {origin : Origin}
    (found : project.ownOrigin? path key = some origin) :
    origin.file = path ∧ ∃ file, project.files.get? path = some file ∧
      origin.definition ∈ file.definitions ∧ origin.definition.item.key = key := by
  obtain ⟨file, held, inFile⟩ := Option.bind_eq_some_iff.mp found
  obtain ⟨definition, first, rfl⟩ := Option.map_eq_some_iff.mp inFile
  refine ⟨rfl, file, held, List.mem_of_find?_eq_some first, ?_⟩
  simpa using List.find?_some first

theorem isSome_ownOrigin (path : Text) (key : Key) :
    (project.ownOrigin? path key).isSome ↔ project.Defines path key := by
  constructor
  · intro defined
    obtain ⟨origin, found⟩ := Option.isSome_iff_exists.mp defined
    obtain ⟨-, file, held, listed, named⟩ := ownOrigin_eq_some found
    exact ⟨file, held, origin.definition, listed, named⟩
  · rintro ⟨file, held, definition, listed, named⟩
    have first : (file.definitions.find? fun other => other.item.key = key).isSome := by
      rw [List.find?_isSome]
      exact ⟨definition, listed, by simpa using named⟩
    simpa [ownOrigin?, held] using first

/-- A visible key refers to its first definition in a file within reach. -/
theorem visible_origin (acyclic : project.Acyclic) {path : Text} {key : Key} {origin : Origin}
    (seen : project.visible acyclic path key = some origin) :
    project.Reaches path origin.file ∧ project.ownOrigin? origin.file key = some origin := by
  induction path using acyclic.wellFounded.induction with
  | _ path induction =>
      have atHome : ∀ next, project.ownOrigin? next key = some origin →
          origin.file = next ∧ project.ownOrigin? origin.file key = some origin := by
        intro next found
        have same := (ownOrigin_eq_some found).1
        exact ⟨same, same ▸ found⟩
      rw [visible_eq] at seen
      rcases Option.or_eq_some_iff.mp seen with own | ⟨-, imported⟩
      · obtain ⟨same, found⟩ := atHome path own
        exact ⟨same ▸ .refl, found⟩
      rcases Option.or_eq_some_iff.mp imported with near | ⟨-, far⟩
      · obtain ⟨next, step, found⟩ := List.exists_of_findSome?_eq_some near
        obtain ⟨same, found⟩ := atHome next found
        exact ⟨same ▸ .single step, found⟩
      · obtain ⟨next, step, found⟩ := List.exists_of_findSome?_eq_some far
        obtain ⟨chain, found⟩ := induction next step found
        exact ⟨.head step chain, found⟩

theorem isSome_visible_of_own (acyclic : project.Acyclic) {path : Text} {key : Key}
    (own : (project.ownOrigin? path key).isSome) : (project.visible acyclic path key).isSome := by
  rw [visible_eq, Option.isSome_or, own, Bool.true_or]

/-- What an import sees can be seen in the importing file. -/
theorem isSome_visible_of_import (acyclic : project.Acyclic) {path next : Text} {key : Key}
    (step : project.Imports path next) (seen : (project.visible acyclic next key).isSome) :
    (project.visible acyclic path key).isSome := by
  have far : ((project.presentImports path).findSome? fun other =>
      project.visible acyclic other key).isSome := by
    rw [List.findSome?_isSome_iff]
    exact ⟨next, step, seen⟩
  rw [visible_eq, Option.isSome_or, Option.isSome_or, far]
  simp

/-- A key is visible exactly when some file within reach defines it. -/
theorem isSome_visible (acyclic : project.Acyclic) (path : Text) (key : Key) :
    (project.visible acyclic path key).isSome ↔
      ∃ source, project.Reaches path source ∧ project.Defines source key := by
  constructor
  · intro seen
    obtain ⟨origin, found⟩ := Option.isSome_iff_exists.mp seen
    obtain ⟨chain, own⟩ := visible_origin acyclic found
    exact ⟨origin.file, chain, (isSome_ownOrigin _ _).mp (Option.isSome_of_eq_some own)⟩
  · rintro ⟨source, chain, defines⟩
    induction chain using Relation.ReflTransGen.head_induction_on with
    | refl => exact isSome_visible_of_own acyclic ((isSome_ownOrigin _ _).mpr defines)
    | head step _ induction => exact isSome_visible_of_import acyclic step induction

end ScopeLint.Project
