import ScopeLint.Log
import ScopeLint.Project.Basic

/-!
What each file of a project can see: its own definitions, then those of its imports in path
order, then whatever its imports see. The first definition of a key wins. Scopes are computed
once for each file, imports before importers; imports that lead back to a file whose scope is
being computed have no meaning, and the whole computation fails.
-/

namespace ScopeLint

structure Origin where
  /-- The canonical path of the defining file. -/
  file : Text
  definition : Definition
  deriving DecidableEq, Repr

structure Scope where
  file : Text
  /-- Origins by key, every key once. -/
  items : List (Key × Origin)
  /-- The imports of the file that the project holds, in path order. -/
  direct : List Text

namespace Scope

/-- Makes an item visible unless its key already is. -/
def define (items : List (Key × Origin)) (item : Key × Origin) : List (Key × Origin) :=
  if items.any fun known => known.1 = item.1 then items else items ++ [item]

def find? (scope : Scope) (key : Key) : Option Origin :=
  (scope.items.find? fun item => item.1 = key).map Prod.snd

def lookup (scope : Scope) (item : Item) : Option Origin := scope.find? item.key

def has (scope : Scope) (item : Item) : Bool := (scope.lookup item).isSome

def sorted (scope : Scope) : List (Key × Origin) :=
  scope.items.mergeSort fun left right => Key.le left.1 right.1

def ownItems (file : ProjectFile) : List (Key × Origin) :=
  file.definitions.map fun definition => (definition.item.key, ⟨file.path, definition⟩)

def assemble (project : Project) (file : ProjectFile) (imports : List Scope) : Scope :=
  let own := ownItems file
  let near := imports.flatMap fun scope =>
    ((project.files.get? scope.file).map ownItems).getD []
  let far := imports.flatMap Scope.items
  ⟨file.path, (own ++ near ++ far).foldl define [], imports.map Scope.file⟩

end Scope

/-- A file that is imported, through others, by itself. -/
structure Cycle where
  file : Text
  name : Text
  deriving DecidableEq, Repr

def Cycle.message (cycle : Cycle) : Text := "recursive import of " ++ cycle.name

namespace Project

structure ScopeProgress where
  scopes : Table Scope
  log : List LogEntry

/-- The cycle that stopped the computation, with what was logged until then. -/
structure Stopped where
  cycle : Cycle
  log : List LogEntry

def absentImport (project : Project) (file missing : Text) : LogEntry :=
  ⟨.warning, "Skipping import of file missing from the project",
    [("file", .text (project.displayName file)), ("import", .text (project.displayName missing))]⟩

/-- Computes the scope of a file and of all files it leads to. The files whose scopes are being
computed are `pending`; each call adds one, so the number of files bounds the depth. -/
def visit (project : Project) :
    (fuel : Nat) → (pending : List Text) → ScopeProgress → (path : Text) →
      Except Stopped ScopeProgress
  | 0, _, progress, _ => .ok progress
  | fuel + 1, pending, progress, path =>
      if progress.scopes.contains path then .ok progress
      else if pending.elem path then .error ⟨⟨path, project.displayName path⟩, progress.log⟩
      else match project.files.get? path with
        | none => .ok progress
        | some file => do
            let progress ← file.importPaths.foldlM (fun progress next =>
              if project.has next then visit project fuel (path :: pending) progress next
              else .ok { progress with log := progress.log ++ [absentImport project path next] })
              progress
            let imports := file.importPaths.filterMap progress.scopes.get?
            let scope := Scope.assemble project file imports
            return { progress with scopes := progress.scopes.insert path scope }

def scopes (project : Project) : Except Stopped ScopeProgress :=
  project.paths.foldlM (visit project (project.files.size + 1) []) ⟨∅, []⟩

end Project

end ScopeLint
