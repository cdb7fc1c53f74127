import ScopeLint.File.Path
import ScopeLint.Table

/-!
A file system as a value: what stands at each path below the root. Paths with links are followed
name by name, so that every file has one canonical path; the number of links that one lookup may
follow is bounded.
-/

namespace ScopeLint

inductive FileEntry where
  | file (content : Text)
  | directory
  /-- A link to a path, relative to the directory of the link or absolute. -/
  | link (target : Text)
  deriving DecidableEq, Repr

inductive FileFault where
  | missing
  | notADirectory
  | isADirectory
  | tooManyLinks
  deriving DecidableEq, Repr

def FileFault.text : FileFault → Text
  | missing => "no such file or directory"
  | notADirectory => "not a directory"
  | isADirectory => "is a directory"
  | tooManyLinks => "too many levels of symbolic links"

structure FileError where
  operation : Text
  path : Text
  fault : FileFault
  deriving DecidableEq, Repr

def FileError.message (error : FileError) : Text :=
  error.operation ++ " " ++ error.path ++ ": " ++ error.fault.text

/-- The files below the root, by absolute clean path. The root itself is a directory. -/
structure FileTree where
  entries : Table FileEntry

namespace FileTree

def empty : FileTree := ⟨∅⟩

/-- The entry at a canonical path, which is empty for the root. -/
def entry? (tree : FileTree) (path : Text) : Option FileEntry :=
  if path = [] then some .directory else tree.entries.get? path

def insert (tree : FileTree) (path : Text) (entry : FileEntry) : FileTree :=
  ⟨tree.entries.insert path entry⟩

/-- The tree with a directory at every place on the way to a path given by its names. -/
def makeDirectories (tree : FileTree) : (front : Text) → List Text → FileTree
  | _, [] => tree
  | front, name :: rest =>
      let path := front ++ "/" ++ name
      let tree := if (tree.entry? path).isSome then tree else tree.insert path .directory
      makeDirectories tree path rest

def put (tree : FileTree) (path : Text) (entry : FileEntry) : FileTree :=
  let names := Path.cleanNames path
  (tree.makeDirectories [] names.dropLast).insert (Path.ofNames true names) entry

def makeDirectory (tree : FileTree) (path : Text) : FileTree :=
  tree.makeDirectories [] (Path.cleanNames path)

def remove (tree : FileTree) (path : Text) : FileTree :=
  let below := path ++ "/"
  ⟨tree.entries.entries.filter fun entry => entry.1 ≠ path && !entry.1.startsWith below,
    tree.entries.increasing.filter _⟩

def parent (path : Text) : Text := (path.take (path.length - (Path.lastName path).length)).dropLast

/-- Follows names from a canonical path. A link is handed to `follow` together with the place
where its target starts and all names that are still to come; the last name is followed only if
`throughLast`. -/
def walk (tree : FileTree) (throughLast : Bool)
    (follow : Text → List Text → Except FileFault Text) :
    (here : Text) → List Text → Except FileFault Text
  | here, [] => .ok here
  | here, name :: rest =>
      if tree.entry? here ≠ some .directory then .error .notADirectory
      else if name = [] || name = Text.ofString "." then walk tree throughLast follow here rest
      else if name = Text.ofString ".." then walk tree throughLast follow (parent here) rest
      else
        let next := here ++ "/" ++ name
        match tree.entry? next with
        | none => .error .missing
        | some (.link target) =>
            if rest.isEmpty && !throughLast then .ok next
            else follow (if Path.isAbsolute target then [] else here)
              (target.splitOn Path.slash ++ rest)
        | some _ => walk tree throughLast follow next rest

def resolveNames (tree : FileTree) (throughLast : Bool) :
    (links : Nat) → (here : Text) → List Text → Except FileFault Text
  | 0 => walk tree throughLast fun _ _ => .error .tooManyLinks
  | links + 1 => walk tree throughLast (resolveNames tree throughLast links)

/-- How many links one access follows. -/
def accessLinks : Nat := 40

def canonicalLinks : Nat := 255

def resolve (tree : FileTree) (working : Text) (links : Nat) (throughLast : Bool) (path : Text) :
    Except FileFault Text :=
  if path = [] then .error .missing
  else
    let names := path.splitOn Path.slash
    let names := if Path.isAbsolute path then names else working.splitOn Path.slash ++ names
    tree.resolveNames throughLast links [] names

def stat (tree : FileTree) (working path : Text) : Except FileError FileEntry :=
  match tree.resolve working accessLinks true path with
  | .error fault => .error ⟨"stat", path, fault⟩
  | .ok found =>
      match tree.entry? found with
      | some entry => .ok entry
      | none => .error ⟨"stat", path, .missing⟩

def read (tree : FileTree) (working path : Text) : Except FileError Text :=
  match tree.resolve working accessLinks true path with
  | .error fault => .error ⟨"open", path, fault⟩
  | .ok found =>
      match tree.entry? found with
      | some (.file content) => .ok content
      | some _ => .error ⟨"read", path, .isADirectory⟩
      | none => .error ⟨"open", path, .missing⟩

def shown (path : Text) : Text := if path = [] then "/" else path

/-- The canonical path of a file. A path that leads to nothing is only made absolute. -/
def canonical (tree : FileTree) (working path : Text) : Text :=
  let path := Path.absolute working path
  match tree.resolve working canonicalLinks true path with
  | .ok found => shown found
  | .error _ => path

/-- The canonical path at which a file would stand that a path leads to: an existing one through
all links, otherwise a new one in the directory that the path names. -/
def destination (tree : FileTree) (working path : Text) : Text :=
  match tree.resolve working accessLinks true path with
  | .ok found => found
  | .error _ => Path.join (tree.canonical working (Path.directory path)) (Path.base path)

/-- Writes a file. A directory cannot be written over. -/
def write (tree : FileTree) (working path content : Text) : FileTree :=
  let found := tree.destination working path
  if tree.entry? found = some .directory then tree else tree.put found (.file content)

/-- Deletes what a path names, a link and not what it leads to. -/
def delete (tree : FileTree) (working path : Text) : FileTree :=
  match tree.resolve working accessLinks false path with
  | .ok found => tree.remove found
  | .error _ => tree

/-- Everything below a directory given by its canonical path, by relative path in byte order. -/
def listing (tree : FileTree) (directory : Text) : List (Text × FileEntry) :=
  tree.entries.entries.filterMap fun (path, entry) =>
    (Text.after? path (directory ++ "/")).map (·, entry)

/-- The directories that a relative path goes through, the outermost first. -/
def ancestors (path : Text) : List Text :=
  let names := path.splitOn Path.slash
  (List.range (names.length - 1)).map fun count => Text.join "/" (names.take (count + 1))

end FileTree

end ScopeLint
