import ScopeLint.Project.Basic

/-!
Strict mode and test names. A file that calls the command for strict mode gets a mark among its
definitions; the mark travels through imports like any definition, so strict mode is on wherever
the mark is visible. No script can define the mark, because its name is no command name.
-/

namespace ScopeLint

/-- The mark of files that turn strict mode on. -/
def strictMode : Item := ⟨"!EnablesStrictMode", .pseudo⟩

/-- The command that turns strict mode on. -/
def strictCommand : Text := "Set-StrictMode"

/-- The command that makes test names into file names. -/
def loggerCommand : Text := "Initialize-PesterLogger"

namespace ProjectFile

/-- Adds the mark at the first call of the command for strict mode. -/
def markStrictMode (file : ProjectFile) : ProjectFile :=
  match file.usages.find? fun usage => usage.item.name.sameFold strictCommand with
  | some usage => { file with definitions := file.definitions ++ [⟨strictMode, usage.span⟩] }
  | none => file

def calls (file : ProjectFile) (command : Text) : Bool :=
  file.usages.any fun usage => usage.item.kind = .function && usage.item.name.sameFold command

end ProjectFile

structure InvalidTestcase where
  testcase : Testcase
  /-- In order of appearance, each once. -/
  chars : List Char
  deriving DecidableEq, Repr

namespace InvalidTestcase

def forbidden : List Char := "\"><|:*?\\/".toList

def collect : (found : List Char) → List Char → List Char
  | found, [] => found
  | found, char :: rest =>
      if forbidden.elem char && !found.elem char then collect (found ++ [char]) rest
      else collect found rest

def ofTestcase? (testcase : Testcase) : Option InvalidTestcase :=
  let chars := collect [] testcase.name.chars
  if chars.isEmpty then none else some ⟨testcase, chars⟩

/-- The tests of a file that cannot be file names, where test names become file names. -/
def ofFile (file : ProjectFile) : List InvalidTestcase :=
  if file.calls loggerCommand then file.testcases.filterMap ofTestcase? else []

end InvalidTestcase

end ScopeLint
