import ScopeLint.Text.Basic

/-!
File paths as text with slashes. All operations are lexical: they look at the names in a path
and at no file. A path is clean when it has no empty names, no single dots, and double dots only
at the front of a relative path.
-/

namespace ScopeLint

namespace Path

def slash : UInt8 := 0x2F

def isAbsolute (path : Text) : Bool := path.startsWith "/"

/-- The names of a path, without the empty ones and single dots. -/
def names (path : Text) : List Text :=
  (path.splitOn slash).filter fun name => name ≠ [] && name ≠ Text.ofString "."

/-- Resolves double dots against the names in front of them, which are held in reverse. A double
dot at the root stays there, and one at the front of a relative path is kept. -/
def settle (absolute : Bool) : (front : List Text) → List Text → List Text
  | front, [] => front.reverse
  | front, name :: rest =>
      if name = Text.ofString ".." then
        match front with
        | [] => if absolute then settle absolute [] rest else settle absolute [name] rest
        | last :: before =>
            if last = Text.ofString ".." then settle absolute (name :: front) rest
            else settle absolute before rest
      else settle absolute (name :: front) rest

def cleanNames (path : Text) : List Text := settle (isAbsolute path) [] (names path)

def ofNames (absolute : Bool) (names : List Text) : Text :=
  if absolute then "/" ++ Text.join "/" names
  else if names.isEmpty then "." else Text.join "/" names

/-- The shortest path that leads the same way. -/
def clean (path : Text) : Text := ofNames (isAbsolute path) (cleanNames path)

/-- The clean path that goes through both, none when both are empty. -/
def join (directory rest : Text) : Text :=
  if directory = [] then (if rest = [] then [] else clean rest)
  else if rest = [] then clean directory
  else clean (directory ++ "/" ++ rest)

def absolute (working path : Text) : Text :=
  if isAbsolute path then clean path else join working path

def lastName (path : Text) : Text := (path.splitOn slash).getLastD []

def directory (path : Text) : Text := clean (path.take (path.length - (lastName path).length))

/-- The last name of a path, slashes at its end apart. -/
def base (path : Text) : Text :=
  if path = [] then "."
  else
    let trimmed := (path.reverse.dropWhile (· = slash)).reverse
    if trimmed = [] then "/" else lastName trimmed

/-- The last name from its last dot on, nothing when it has no dot. -/
def extension (path : Text) : Text :=
  match Text.cut? (Text.byte '.') (lastName path).reverse with
  | some (ending, _) => "." ++ ending.reverse
  | none => []

def dropCommon : List Text → List Text → List Text × List Text
  | left :: lefts, right :: rights =>
      if left = right then dropCommon lefts rights else (left :: lefts, right :: rights)
  | lefts, rights => (lefts, rights)

/-- The names of a clean path as seen by `relative?`: a clean path to a relative target that is
the directory itself still counts as the name of that directory. -/
def targetNames (path : Text) : List Text :=
  if path = Text.ofString "." then [path] else names path

/-- The path that leads from `root` to `path`, if the names alone tell it. -/
def relative? (root path : Text) : Option Text :=
  let start := clean root
  let goal := clean path
  if start = goal then some (Text.ofString ".")
  else if isAbsolute start != isAbsolute goal then none
  else match dropCommon (names start) (targetNames goal) with
    | (left :: lefts, right :: rights) =>
        if left = Text.ofString ".." then none
        else some (Text.join "/"
          ((left :: lefts).map (fun _ => Text.ofString "..") ++ right :: rights))
    | (lefts, rights) =>
        some (Text.join "/" (lefts.map (fun _ => Text.ofString "..") ++ rights))

end Path

end ScopeLint
