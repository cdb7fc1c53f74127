import ScopeLint.Project.Workspace

/-!
Watching a directory: which directories have to be observed, which changes count, and how changes
are gathered. A change waits in a set until the batch is taken, so that a path is reported once
however often it changed in between.
-/

namespace ScopeLint

/-- What can happen to a path. Several things may be reported together. -/
inductive Change where
  | created
  | written
  | removed
  | renamed
  | permissions
  deriving DecidableEq, Repr

structure Watcher where
  /-- The absolute path of the watched directory. -/
  root : Text
  excludes : Excludes
  /-- The extensions of files whose changes count, in any letter case. -/
  extensions : List Text
  /-- The names of further files whose changes count. -/
  names : List Text
  /-- The paths that changed since the last batch. -/
  pending : Table Unit := ∅
  /-- The observed directories. -/
  observed : Table Unit := ∅

namespace Watcher

def isExcluded (watcher : Watcher) (path : Text) : Bool :=
  watcher.excludes.covers ((Path.relative? watcher.root path).getD path)

/-- Hidden directories are left out like excluded ones. -/
def isExcludedDirectory (watcher : Watcher) (path : Text) : Bool :=
  let name := Path.base path
  (name.length > 1 && name.startsWith ".") || watcher.isExcluded path

def isRelevant (watcher : Watcher) (path : Text) : Bool :=
  let name := Path.base path
  !watcher.isExcluded path && (watcher.names.contains name
    || watcher.extensions.any fun extension => (Path.extension name).sameFold extension)

/-- The root is watched even if its own name would be left out. -/
def isLeftOut (watcher : Watcher) (path : Text) : Bool :=
  path ≠ watcher.root && watcher.isExcludedDirectory path

/-- A path and those of all directories below the place it leads to. Links are not entered. -/
def directoriesBelow (tree : FileTree) (path found : Text) : List Text :=
  path :: (tree.listing found).filterMap fun (name, entry) =>
    if entry = .directory then some (Path.join path name) else none

/-- The paths that lead from one directory to another below it, both included. -/
def way (start path : Text) : List Text :=
  match path.after? (if start = Text.ofString "/" then start else start ++ "/") with
  | none => [path]
  | some below => start :: (FileTree.ancestors below ++ [below]).map (Path.join start)

/-- The directories to observe for a path: none for a file or a link, and nothing that is left
out or lies below it. -/
def directories (watcher : Watcher) (workspace : Workspace) (path : Text) :
    Except FileError (List Text) :=
  match workspace.tree.resolve workspace.working FileTree.accessLinks false path with
  | .error fault => .error ⟨"lstat", path, fault⟩
  | .ok found =>
      if workspace.tree.entry? found = some .directory then
        .ok ((directoriesBelow workspace.tree path found).filter fun directory =>
          !(way path directory).any watcher.isLeftOut)
      else .ok []

def observe (watcher : Watcher) (workspace : Workspace) (path : Text) :
    Except FileError Watcher := do
  let found ← watcher.directories workspace path
  let observed := found.foldl (fun table directory => table.insert directory ()) watcher.observed
  return { watcher with observed }

def schedule (watcher : Watcher) (path : Text) : Watcher :=
  { watcher with pending := watcher.pending.insert path () }

/-- Takes the batch of changed paths in byte order, nothing when there are none. -/
def takeBatch (watcher : Watcher) : Watcher × Option (List Text) :=
  let paths := watcher.pending.keys
  ({ watcher with pending := ∅ }, if paths.isEmpty then none else some paths)

/-- Takes note of what happened to a path. A new directory is observed, as far as that is
possible; a change of a file is scheduled if it counts. -/
def notice (watcher : Watcher) (workspace : Workspace) (path : Text) (changes : List Change) :
    Watcher :=
  let isDirectory := match workspace.stat path with
    | .ok entry => entry = .directory
    | .error _ => false
  if changes.contains .created && isDirectory then
    if watcher.isExcludedDirectory path then watcher
    else (watcher.observe workspace path).toOption.getD watcher
  else if changes.any (· ≠ .permissions) && watcher.isRelevant path then watcher.schedule path
  else watcher

def observedPaths (watcher : Watcher) : List Text := watcher.observed.keys

def pendingPaths (watcher : Watcher) : List Text := watcher.pending.keys

end Watcher

end ScopeLint
