import ScopeLint.Proofs.Lists
import ScopeLint.Proofs.Project.Visibility

/-!
What changes when one file imports something else. The files and their definitions stay, and so
does the import graph apart from the edges that leave the changed file; a file from which the
changed one cannot be reached sees what it saw before.
-/

namespace ScopeLint.Project

variable {project : Project}

/-- Visibility in a file depends on nothing but the files within reach, their definitions and
their imports. -/
theorem visible_congr {left right : Project} (leftAcyclic : left.Acyclic)
    (rightAcyclic : right.Acyclic) (path : Text) (key : Key)
    (agree : ∀ other, left.Reaches path other →
      left.presentImports other = right.presentImports other ∧
        left.ownOrigin? other key = right.ownOrigin? other key) :
    left.visible leftAcyclic path key = right.visible rightAcyclic path key := by
  induction path using leftAcyclic.wellFounded.induction with
  | _ path induction =>
      obtain ⟨sameImports, sameOwn⟩ := agree path .refl
      have near : ∀ next ∈ left.presentImports path,
          left.ownOrigin? next key = right.ownOrigin? next key :=
        fun next step => (agree next (.single step)).2
      have far : ∀ next ∈ left.presentImports path,
          left.visible leftAcyclic next key = right.visible rightAcyclic next key :=
        fun next step => induction next step fun other chain => agree other (.head step chain)
      rw [visible_eq, visible_eq, sameOwn, ← sameImports, List.findSome?_congr near,
        List.findSome?_congr far]

def changeImports (project : Project) (path : Text) (change : Table Import → Table Import) :
    Project :=
  match project.files.get? path with
  | some file => project.put { file with imports := change file.imports }
  | none => project

section Change

variable {path : Text} {file : ProjectFile} (held : project.files.get? path = some file)
  (change : Table Import → Table Import)

include held

theorem get_changeImports (other : Text) :
    (project.changeImports path change).files.get? other =
      if other = path then some { file with imports := change file.imports }
      else project.files.get? other := by
  simp only [changeImports, held, put, Table.get_insert, path_of_get held]

theorem has_changeImports (other : Text) :
    (project.changeImports path change).has other = project.has other := by
  simp only [has, Table.contains, get_changeImports held]
  split
  next same => simp [same, held]
  next => rfl

theorem ownOrigin_changeImports (other : Text) (key : Key) :
    (project.changeImports path change).ownOrigin? other key = project.ownOrigin? other key := by
  simp only [ownOrigin?, get_changeImports held]
  split
  next same => simp [same, held]
  next => rfl

theorem defines_changeImports (other : Text) (key : Key) :
    (project.changeImports path change).Defines other key ↔ project.Defines other key := by
  rw [← isSome_ownOrigin, ← isSome_ownOrigin, ownOrigin_changeImports held]

theorem presentImports_changeImports_of_ne {other : Text} (distinct : other ≠ path) :
    (project.changeImports path change).presentImports other = project.presentImports other := by
  have same : (project.changeImports path change).has = project.has :=
    funext (has_changeImports held change)
  simp only [presentImports, same, importsOf, get_changeImports held, if_neg distinct]

theorem presentImports_changeImports_self :
    (project.changeImports path change).presentImports path =
      (change file.imports).keys.filter project.has := by
  have same : (project.changeImports path change).has = project.has :=
    funext (has_changeImports held change)
  simp [presentImports, same, importsOf, get_changeImports held, ProjectFile.importPaths]

/-- A file that does not lead to the changed one sees what it saw. -/
theorem visible_changeImports (acyclic : project.Acyclic)
    (changed : (project.changeImports path change).Acyclic) {other : Text}
    (apart : ¬ project.Reaches other path) (key : Key) :
    (project.changeImports path change).visible changed other key =
      project.visible acyclic other key := by
  symm
  apply visible_congr
  intro next chain
  have distinct : next ≠ path := fun same => apart (same ▸ chain)
  exact ⟨(presentImports_changeImports_of_ne held change distinct).symm,
    (ownOrigin_changeImports held change next key).symm⟩

end Change

theorem isImported_iff (path : Text) :
    project.isImported path = true ↔
      ∃ other file, project.files.get? other = some file ∧ file.imports.contains path = true := by
  simp only [isImported, List.any_eq_true, Table.mem_values]
  constructor
  · rintro ⟨file, ⟨other, found⟩, imported⟩
    exact ⟨other, file, found, imported⟩
  · rintro ⟨other, file, found, imported⟩
    exact ⟨file, ⟨other, found⟩, imported⟩

theorem Acyclic.not_contains_self (acyclic : project.Acyclic) {path : Text} {file : ProjectFile}
    (held : project.files.get? path = some file) : ¬ file.imports.contains path = true := by
  intro imported
  have step : project.Imports path path :=
    (imports_iff held).mpr ⟨imported, (has_iff path).mpr ⟨file, held⟩⟩
  exact acyclic path (.single step)

/-- Whether a file is imported does not depend on its own imports. -/
theorem isImported_changeImports (acyclic : project.Acyclic) {path : Text} {file : ProjectFile}
    (held : project.files.get? path = some file) (change : Table Import → Table Import)
    (changed : (project.changeImports path change).Acyclic) :
    (project.changeImports path change).isImported path = project.isImported path := by
  have heldNow : (project.changeImports path change).files.get? path =
      some { file with imports := change file.imports } := by
    rw [get_changeImports held, if_pos rfl]
  rw [Bool.eq_iff_iff, isImported_iff, isImported_iff]
  constructor
  · rintro ⟨other, importer, found, imported⟩
    have distinct : other ≠ path := by
      rintro rfl
      exact changed.not_contains_self found imported
    rw [get_changeImports held, if_neg distinct] at found
    exact ⟨other, importer, found, imported⟩
  · rintro ⟨other, importer, found, imported⟩
    have distinct : other ≠ path := by
      rintro rfl
      exact acyclic.not_contains_self found imported
    exact ⟨other, importer, by rw [get_changeImports held, if_neg distinct, found], imported⟩

end ScopeLint.Project
