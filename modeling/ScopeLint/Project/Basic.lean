import ScopeLint.File.Path
import ScopeLint.Script.Item
import ScopeLint.Table

/-!
A project: the scripts under a directory that could be read, keyed by their canonical paths, and
the problems met while reading. An import may lead to a file outside the project, for example one
with a syntax error; such a file is absent, and chains of imports end there.
-/

namespace ScopeLint

structure ProjectFile where
  /-- The canonical path, which identifies the file. -/
  path : Text
  /-- The path that reports show. -/
  name : Text
  /-- The text without its byte order mark. -/
  source : Text
  /-- The imported files by canonical path, each with the line that imports it. -/
  imports : Table Import
  definitions : List Definition
  usages : List Usage
  testcases : List Testcase

namespace ProjectFile

/-- A file without functions and classes of its own exists only to pass its imports on. -/
def isImportBag (file : ProjectFile) : Bool :=
  file.definitions.all fun definition => definition.item.kind = .pseudo

def importPaths (file : ProjectFile) : List Text := file.imports.keys

end ProjectFile

inductive ProblemKind where
  /-- The file cannot be read as a script. -/
  | syntaxError
  /-- An import of a form that is not understood. -/
  | unrecognizedImport
  /-- A second import of one file. -/
  | duplicateImport
  /-- An import of a file that does not exist. -/
  | missingImport
  deriving DecidableEq, Repr

def ProblemKind.text : ProblemKind → Text
  | syntaxError => "syntax error"
  | unrecognizedImport => "unrecognized import"
  | duplicateImport => "duplicate import"
  | missingImport => "missing import"

/-- Something that keeps a file or an import out of the analysis. -/
structure Problem where
  kind : ProblemKind
  /-- The path that reports show. -/
  name : Text
  path : Text
  span : Span
  /-- The fault of the text, or what the import names. -/
  text : Text
  /-- Where an import leads, for the kinds that lead somewhere. -/
  target : Text
  deriving DecidableEq, Repr

structure Project where
  root : Text
  files : Table ProjectFile
  problems : List Problem
  /-- Every file stands under its own path. -/
  filed : ∀ entry ∈ files.entries, entry.2.path = entry.1

namespace Project

def empty (root : Text) : Project := ⟨root, ∅, [], fun _ member => absurd member List.not_mem_nil⟩

/-- How reports name a path: relative to the root when it lies below it. -/
def displayName (project : Project) (path : Text) : Text :=
  if project.root = [] then path
  else match Path.relative? project.root path with
    | some relative => if relative.startsWith ".." then path else relative
    | none => path

/-- Puts a file under its path, in place of what stood there. -/
def put (project : Project) (file : ProjectFile) : Project :=
  { project with
    files := project.files.insert file.path file
    filed := by
      intro entry member
      rcases Table.mem_insertEntry member with rfl | member
      · rfl
      · exact project.filed entry member }

/-- Adds a file, which gets a name if it has none. -/
def add (project : Project) (file : ProjectFile) : Project :=
  let name := if file.name = [] then project.displayName file.path else file.name
  project.put { file with name }

def addProblem (project : Project) (problem : Problem) : Project :=
  { project with problems := project.problems ++ [problem] }

def fileName (project : Project) (path : Text) : Text :=
  match project.files.get? path with
  | some file => file.name
  | none => project.displayName path

def paths (project : Project) : List Text := project.files.keys

def has (project : Project) (path : Text) : Bool := project.files.contains path

def importsOf (project : Project) (path : Text) : List Text :=
  ((project.files.get? path).map ProjectFile.importPaths).getD []

def isImported (project : Project) (path : Text) : Bool :=
  project.files.values.any fun file => file.imports.contains path

def imported (project : Project) : List Text :=
  (Table.ofList ((project.files.values.flatMap ProjectFile.importPaths).map (·, ()))).keys

/-- Breadth-first search for `target`. The queue holds chains in reverse, each with the file to
look at in front, and `seen` all files that were ever put in the queue. -/
def searchChain (project : Project) (target : Text) :
    (fuel : Nat) → (queue : List (List Text)) → (seen : List Text) → List Text
  | 0, _, _ => []
  | _ + 1, [], _ => []
  | fuel + 1, chain :: queue, seen =>
      match chain with
      | [] => searchChain project target fuel queue seen
      | path :: _ =>
          if path = target then chain
          else
            let fresh := (project.importsOf path).filter fun next => !seen.elem next
            searchChain project target fuel (queue ++ fresh.map (· :: chain)) (seen ++ fresh)

/-- The number of imports of all files together, which bounds how many files a search meets. -/
def importCount (project : Project) : Nat :=
  project.files.values.foldr (fun file count => file.imports.size + count) 0

/-- The shortest chain of imports that leads from one file to another, both ends included, and
the first in byte order among the shortest; empty when there is none. An empty path identifies no
file, and what stands before one is not part of a chain. -/
def importChain (project : Project) (source target : Text) : List Text :=
  let chain := searchChain project target (project.importCount + 2) [[source]] [source]
  (chain.takeWhile (· ≠ [])).reverse

end Project

end ScopeLint
