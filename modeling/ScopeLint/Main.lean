import ScopeLint.CommandLine.Run

/-!
The program. It reads the files that a run may look at, runs the pure program on them, and prints
what it reports. Output counts as going to no terminal, and the watch command ends with its first
analysis, because changes on disk are not observed here. Signals, editing of typed lines, the
connection of an editor and traces of a run are left to the environment.
-/

namespace ScopeLint.Main

def textOf (bytes : ByteArray) : Text := bytes.data.toList

def stringOf (text : Text) : String := String.ofList text.chars

/-- The tree with everything below a directory, whose path is absolute. Hidden directories are
entered without their contents, and a link is kept as a link to where it leads. -/
partial def gather (tree : FileTree) (directory : String) : IO FileTree := do
  let mut tree := tree.makeDirectory directory
  for entry in ← (← IO.FS.realPath directory).readDir do
    let path := directory ++ "/" ++ entry.fileName
    let target ← IO.FS.realPath path
    if target.toString ≠ (← IO.FS.realPath directory).toString ++ "/" ++ entry.fileName then
      tree := tree.put path (.link target.toString)
    else if ← target.isDir then
      if entry.fileName.startsWith "." then tree := tree.makeDirectory path
      else tree ← gather tree path
    else tree := tree.put path (.file (textOf (← IO.FS.readBinFile path)))
  return tree

def include? (tree : FileTree) (path : String) : IO FileTree := do
  try
    let found ← IO.FS.realPath path
    if ← found.isDir then gather tree path
    else return tree.put path (.file (textOf (← IO.FS.readBinFile path)))
  catch _ => return tree

def importedPaths (tree : FileTree) : List Text :=
  tree.entries.entries.flatMap fun (path, entry) =>
    match entry with
    | .file content =>
        if !Workspace.isScript path then []
        else match Script.read content with
          | .ok script => script.imports.filterMap fun line =>
              Workspace.importTarget? path line.importee
          | .error _ => []
    | _ => []

def variableNames : List Text :=
  "HOME" :: [Preference.directory, .color, .logLevel].map Preference.variableName

def mentionedPaths (bindings : Table Text) (arguments : List Text) : List Text :=
  let given := match Arguments.parse arguments with
    | .ok arguments => arguments.rest ++ arguments.values .config ++ arguments.values .directory
    | .error _ => []
  let home := ((bindings.get? "HOME").map fun home =>
    Path.join home PreferenceFile.homeName).toList
  given ++ home ++ (bindings.get? Preference.directory.variableName).toList

def readsInput (arguments : List Text) : Bool :=
  match Arguments.parse arguments with
  | .ok arguments => arguments.command = .tokens && arguments.rest.isEmpty
  | .error _ => false

end ScopeLint.Main

open ScopeLint ScopeLint.Main in
def main (arguments : List String) : IO UInt32 := do
  let arguments := arguments.map Text.ofString
  let mut bindings : Table Text := ∅
  for name in variableNames do
    if let some value ← IO.getEnv (stringOf name) then
      bindings := bindings.insert name (Text.ofString value)
  let working := Text.ofString (← IO.currentDir).toString
  let mut tree ← include? .empty (stringOf working)
  for path in mentionedPaths bindings arguments do
    tree ← include? tree (stringOf (Path.absolute working path))
  for path in importedPaths tree do
    if (tree.entries.get? path).isNone then tree ← include? tree (stringOf path)
  let input ← if readsInput arguments then (← IO.getStdin).readToEnd else pure ""
  let run := CommandLine.run ⟨⟨tree, working⟩, bindings, input⟩ arguments
  (← IO.getStderr).write ⟨(run.warnings ++ run.report.allErr).toArray⟩
  (← IO.getStdout).write ⟨run.report.out.toArray⟩
  return run.report.outcome.code.toUInt32
