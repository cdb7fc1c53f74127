import ScopeLint.File.Glob
import ScopeLint.File.Tree
import ScopeLint.Project.Findings
import ScopeLint.Script.Basic

/-!
Loading the scripts below a directory into a project and analysing it. Files that cannot be read
as scripts, and files with imports that lead nowhere, become problems instead. The text of an open
editor replaces that of the file on disk.
-/

namespace ScopeLint

structure AnalysisOptions where
  known : KnownCommands
  /-- Patterns of relative paths that are not looked at. -/
  exclude : List Text
  /-- Texts that replace those on disk, by absolute path. -/
  overlay : Table Text

inductive WorkspaceError where
  | root (error : FileError)
  | notADirectory (path : Text)
  | badPattern (pattern : Text) (error : GlobError)
  | cycle (cycle : Cycle)
  deriving DecidableEq, Repr

def WorkspaceError.message : WorkspaceError → Text
  | root error => "workspace root: " ++ error.message
  | notADirectory path => "workspace root " ++ path ++ ": not a directory"
  | badPattern pattern error =>
      "invalid exclude pattern " ++ pattern.quote ++ ": " ++ error.message
  | cycle found => found.message

/-- A file system and the directory that relative paths start from. -/
structure Workspace where
  tree : FileTree
  working : Text

namespace Workspace

def canonical (workspace : Workspace) (path : Text) : Text :=
  workspace.tree.canonical workspace.working path

def read (workspace : Workspace) (path : Text) : Except FileError Text :=
  workspace.tree.read workspace.working path

def stat (workspace : Workspace) (path : Text) : Except FileError FileEntry :=
  workspace.tree.stat workspace.working path

def isScript (path : Text) : Bool := (Path.extension path).sameFold Script.extension

/-- Directories of retired tests carry this in their names. -/
def retiredTests : Text := "_Old_Tests"

def isHidden (name : Text) : Bool :=
  name.length > 1 && name.startsWith "." && name ≠ Text.ofString ".."

/-- Whether a path below the root is left out, be it a file or a directory. -/
def isSkipped (root : Text) (excludes : Excludes) (path : Text) : Bool :=
  Text.contains (root ++ "/" ++ path) retiredTests || excludes.covers path

def isSkippedDirectory (root : Text) (excludes : Excludes) (path : Text) : Bool :=
  isSkipped root excludes path || isHidden (Path.base path)

/-- The scripts below a canonical root, by path. Nothing below a skipped directory counts, and
directories are not entered through links. -/
def scripts (tree : FileTree) (root : Text) (excludes : Excludes) : List Text :=
  let directory := if root = Text.ofString "/" then [] else root
  (tree.listing directory).filterMap fun (path, entry) =>
    if entry = .directory || !isScript path || isSkipped directory excludes path
      || (FileTree.ancestors path).any (isSkippedDirectory directory excludes)
    then none
    else some (directory ++ "/" ++ path)

structure Loading where
  project : Project
  log : List LogEntry

def Loading.note (loading : Loading) (entry : LogEntry) : Loading :=
  { loading with log := loading.log ++ [entry] }

/-- The text of a file, as an open editor has it or as it is on disk. -/
def textOf (workspace : Workspace) (overlay : Table Text) (path : Text) : Except FileError Text :=
  match overlay.get? path with
  | some text => .ok text
  | none => workspace.read path

def isFile (workspace : Workspace) (overlay : Table Text) (path : Text) : Bool :=
  overlay.contains path ||
    match workspace.stat path with
    | .ok entry => entry ≠ .directory
    | .error _ => false

def importTarget? (path : Text) : Importee → Option Text
  | .relative target => some (Path.join (Path.directory path) target)
  | .tested => some (Path.join (Path.directory path) (Script.testedName (Path.base path)))
  | .unrecognized _ => none

/-- The imports of a file that lead somewhere, and the problems of the others. -/
structure Imports where
  table : Table Import
  problems : List Problem

def resolveImport (workspace : Workspace) (overlay : Table Text) (path name : Text)
    (imports : Imports) (line : Import) : Imports :=
  let problem := fun (kind : ProblemKind) (target : Text) =>
    { imports with problems :=
        imports.problems ++ [⟨kind, name, path, line.span, line.importee.text, target⟩] }
  match importTarget? path line.importee with
  | none => problem .unrecognizedImport []
  | some target =>
      if !workspace.isFile overlay target then problem .missingImport target
      else
        let file := workspace.canonical target
        if imports.table.contains file then problem .duplicateImport target
        else { imports with table := imports.table.insert file line }

def resolveImports (workspace : Workspace) (overlay : Table Text) (path name : Text)
    (lines : List Import) : Imports :=
  lines.foldl (workspace.resolveImport overlay path name) ⟨∅, []⟩

def fileNote (name : Text) (level : LogLevel) (message : Text) (fields : List (Text × LogValue)) :
    LogEntry :=
  ⟨level, message, ("file", .text name) :: fields⟩

def load (workspace : Workspace) (overlay : Table Text) (loading : Loading) (path : Text) :
    Loading :=
  let project := loading.project
  let name := project.displayName path
  match workspace.textOf overlay path with
  | .error error =>
      loading.note (fileNote name .warning "Skipping unreadable file" [("error", .text error.message)])
  | .ok text =>
      match Script.read text with
      | .error error =>
          let what := error.fault.message
          let problem := ⟨.syntaxError, name, path, ⟨error.place, error.place⟩, what, []⟩
          Loading.note { loading with project := project.addProblem problem }
            (fileNote name .debug "Syntax error" [("error", .text what)])
      | .ok script =>
          let imports := workspace.resolveImports overlay path name script.imports
          let project := imports.problems.foldl Project.addProblem project
          if imports.problems.any fun problem => problem.kind = .missingImport then
            Loading.note { loading with project }
              (fileNote name .info "Stopping analysis for this file because of import errors" [])
          else
            let file := ProjectFile.markStrictMode
              { path := workspace.canonical path
                name
                source := text.dropMark
                imports := imports.table
                definitions := script.definitions
                usages := script.usages
                testcases := script.testcases }
            Loading.note { loading with project := project.add file }
              (fileNote name .debug "Parsed file"
                [("definitions", .number file.definitions.length),
                  ("usages", .number file.usages.length),
                  ("imports", .number file.imports.size)])

/-- The canonical root of a workspace, which has to be a directory. -/
def root (workspace : Workspace) (path : Text) : Except WorkspaceError Text :=
  let path := Path.absolute workspace.working path
  match workspace.stat path with
  | .error error => .error (.root error)
  | .ok .directory => .ok (workspace.canonical path)
  | .ok _ => .error (.notADirectory path)

def loadAll (workspace : Workspace) (options : AnalysisOptions) (path : Text) :
    Except WorkspaceError Loading := do
  let root ← workspace.root path
  match Excludes.parse options.exclude with
  | .error (pattern, error) => .error (.badPattern pattern error)
  | .ok excludes =>
      let paths := scripts workspace.tree root excludes
      return paths.foldl (workspace.load options.overlay) ⟨Project.empty root, []⟩

def analyze (workspace : Workspace) (options : AnalysisOptions) (path : Text) :
    List LogEntry × Except WorkspaceError Analysis :=
  match workspace.loadAll options path with
  | .error error => ([], .error error)
  | .ok ⟨project, log⟩ =>
      match project.scopes with
      | .error stopped => (log ++ stopped.log, .error (.cycle stopped.cycle))
      | .ok progress =>
          let complete : LogEntry := ⟨.debug, "Analysis complete",
            [("root", .text project.root), ("files", .number project.files.size),
              ("problems", .number project.problems.length)]⟩
          (log ++ progress.log ++ [complete],
            .ok (Analysis.ofScopes project progress.scopes options.known))

end Workspace

end ScopeLint
