import Mathlib.Logic.Relation
import Mathlib.Order.WellFoundedSet
import ScopeLint.Project.Basic
import ScopeLint.Proofs.Table

/-!
The graph of imports of a project, restricted to the files that the project holds. A project is
acyclic when no file leads back to itself; since there are finitely many files, one may then
argue and define by recursion from a file to its imports.
-/

namespace ScopeLint.Project

variable {project : Project}

def presentImports (project : Project) (path : Text) : List Text :=
  (project.importsOf path).filter project.has

def Imports (project : Project) (path next : Text) : Prop := next ∈ project.presentImports path

def Reaches (project : Project) : Text → Text → Prop := Relation.ReflTransGen project.Imports

/-- No file of the project is imported, through others or not, by itself. -/
def Acyclic (project : Project) : Prop := ∀ path, ¬ Relation.TransGen project.Imports path path

theorem path_of_get {path : Text} {file : ProjectFile} (found : project.files.get? path = some file) :
    file.path = path :=
  project.filed _ ((project.files.get_eq_some_iff path file).mp found)

theorem has_iff (path : Text) :
    project.has path = true ↔ ∃ file, project.files.get? path = some file :=
  project.files.contains_iff path

theorem mem_paths (path : Text) : path ∈ project.paths ↔ project.has path = true :=
  project.files.mem_keys path

theorem importsOf_get {path : Text} {file : ProjectFile}
    (found : project.files.get? path = some file) : project.importsOf path = file.importPaths := by
  simp [importsOf, found]

theorem Imports.has_next {path next : Text} (step : project.Imports path next) :
    project.has next = true :=
  (List.mem_filter.mp step).2

theorem Imports.has_path {path next : Text} (step : project.Imports path next) :
    project.has path = true := by
  have listed : next ∈ project.importsOf path := (List.mem_filter.mp step).1
  cases found : project.files.get? path with
  | none => simp [importsOf, found] at listed
  | some file => exact (has_iff path).mpr ⟨file, found⟩

theorem imports_iff {path next : Text} {file : ProjectFile}
    (found : project.files.get? path = some file) :
    project.Imports path next ↔ file.imports.contains next = true ∧ project.has next = true := by
  simp [Imports, presentImports, importsOf_get found, ProjectFile.importPaths, Table.mem_keys]

/-- A number for every file that falls along imports rules cycles out. -/
theorem acyclic_of_rank (rank : Text → Nat)
    (falls : ∀ path ∈ project.paths, ∀ next ∈ project.presentImports path, rank next < rank path) :
    project.Acyclic := by
  have descends : ∀ path next, Relation.TransGen project.Imports path next →
      rank next < rank path := by
    intro path next chain
    induction chain with
    | single step => exact falls _ ((mem_paths _).mpr step.has_path) _ step
    | tail _ step induction =>
        exact (falls _ ((mem_paths _).mpr step.has_path) _ step).trans induction
  intro path loop
  exact Nat.lt_irrefl _ (descends path path loop)

/-- A project with fewer imports has no new cycles. -/
theorem Acyclic.mono {smaller : Project} (acyclic : project.Acyclic)
    (included : ∀ path next, smaller.Imports path next → project.Imports path next) :
    smaller.Acyclic := by
  intro path loop
  exact acyclic path (Relation.TransGen.mono included _ _ loop)

theorem Acyclic.not_reaches_of_imports (acyclic : project.Acyclic) {path next : Text}
    (step : project.Imports path next) : ¬ project.Reaches next path := by
  intro chain
  exact acyclic path (Relation.TransGen.head' step chain)

/-- Only the finitely many files of the project have importers, so descending along the imports
of an acyclic project ends. -/
theorem Acyclic.wellFounded (acyclic : project.Acyclic) :
    WellFounded fun next path => project.Imports path next := by
  let below : Text → Text → Prop := fun next path => Relation.TransGen project.Imports path next
  have strict : IsStrictOrder Text below :=
    { irrefl := acyclic
      trans := fun _ _ _ first second => second.trans first }
  have finite : {path | path ∈ project.paths}.Finite := List.finite_toSet _
  have onFiles := Set.wellFoundedOn_iff.mp (finite.wellFoundedOn (r := below))
  have accessible : ∀ path, project.has path = true →
      Acc (fun next path => project.Imports path next) path := by
    intro path
    induction path using onFiles.induction with
    | _ path induction =>
        intro present
        refine ⟨_, fun next step => ?_⟩
        have listed : next ∈ project.paths := (mem_paths next).mpr step.has_next
        exact induction next ⟨.single step, listed, (mem_paths path).mpr present⟩ step.has_next
  refine ⟨fun path => ⟨_, fun next step => accessible next step.has_next⟩⟩

end ScopeLint.Project
