import ScopeLint.Text.Blank
import ScopeLint.Text.Case
import ScopeLint.Text.Quoted

/-!
The lints and their levels. A lint is known by its slug, which settings, flags and allow comments
use. Its level decides whether its findings are reported and whether they fail the run.
-/

namespace ScopeLint

/-- How serious the findings of a lint are. `unset` stands for a level that was not given. -/
inductive Level where
  | unset
  /-- Not reported. -/
  | allow
  /-- Reported. -/
  | warn
  /-- Reported, and the run fails. -/
  | deny
  deriving DecidableEq, Repr, Inhabited

namespace Level

/-- Levels by increasing strictness. -/
def all : List Level := [unset, allow, warn, deny]

def rank : Level → Nat
  | unset => 0
  | allow => 1
  | warn => 2
  | deny => 3

def text : Level → Text
  | unset => "unknown"
  | allow => "allow"
  | warn => "warning"
  | deny => "error"

/-- A level name in any letter case, with blanks around it. -/
def parse? (name : Text) : Option Level :=
  let name := name.trim.lower
  if name = Text.ofString "allow" then some allow
  else if name = Text.ofString "warn" || name = Text.ofString "warning" then some warn
  else if name = Text.ofString "deny" || name = Text.ofString "error" then some deny
  else none

def unknownMessage (name : Text) : Text := "unknown lint level: " ++ name.quote

def min (left right : Level) : Level := if left.rank ≤ right.rank then left else right

end Level

inductive Lint where
  | syntaxErrors
  | nonexistingImports
  | unrecognizedImports
  | unknownFunctions
  | indirectImports
  | invalidLetterCasing
  | unusedImports
  | noStrictMode
  | invalidTestnameCharacters
  deriving DecidableEq, Repr

namespace Lint

def all : List Lint :=
  [syntaxErrors, nonexistingImports, unrecognizedImports, unknownFunctions, indirectImports,
    invalidLetterCasing, unusedImports, noStrictMode, invalidTestnameCharacters]

def slug : Lint → Text
  | syntaxErrors => "syntax-errors"
  | nonexistingImports => "nonexisting-imports"
  | unrecognizedImports => "unrecognized-imports"
  | unknownFunctions => "unknown-functions"
  | indirectImports => "indirect-imports"
  | invalidLetterCasing => "invalid-letter-casing"
  | unusedImports => "unused-imports"
  | noStrictMode => "no-strict-mode"
  | invalidTestnameCharacters => "invalid-testname-characters"

def ofSlug? (slug : Text) : Option Lint := all.find? fun lint => lint.slug = slug

def standardLevel : Lint → Level
  | syntaxErrors => .deny
  | nonexistingImports => .deny
  | unknownFunctions => .deny
  | _ => .warn

/-- What a lint reports: a summary in one line, and for most lints more behind a blank line. -/
def description : Lint → Text
  | syntaxErrors => "Report files that could not be tokenized.\n\nA file with a syntax error is left out of the analysis, so its definitions are not visible to files importing it."
  | nonexistingImports => "Report imports of files that do not exist.\n\nAnalysis stops for a file with such an import."
  | unrecognizedImports => "Report dot-imports in an unsupported form.\n\nOnly paths rooted at $PSScriptRoot and the $here\\$sut convention of test files are understood.  Importing the same file twice is reported as well."
  | unknownFunctions => "Report commands that are neither defined in scope nor built in.\n\nExtra commands can be declared in the configuration file."
  | indirectImports => "Report commands defined in files that are not imported directly.\n\nFiles without definitions of their own (import bags) may forward their imports without a suggestion to import the defining file."
  | invalidLetterCasing => "Report usages whose letter casing differs from the definition."
  | unusedImports => "Report imports that provide nothing the file uses.\n\nImport bags are never checked."
  | noStrictMode => "Report files not imported by any other file that do not enable strict mode.\n\nStrict mode is enabled when the file or anything it imports calls Set-StrictMode."
  | invalidTestnameCharacters => "Report test names with characters that are invalid in file names.\n\nOnly files that call Initialize-PesterLogger are checked, since the logger names its output files after the tests."

def summary (lint : Lint) : Text := lint.description.takeWhile (· ≠ Text.lineFeed)

def overview : Text :=
  all.flatMap fun lint =>
    "  " ++ lint.slug.padRight 28 ++ " " ++ lint.standardLevel.text.padRight 8 ++ " "
      ++ lint.summary ++ "\n"

end Lint

/-- The levels that override the standard ones, and the highest level that any lint may have. -/
structure LevelConfig where
  levels : List (Text × Level)
  cap : Level

namespace LevelConfig

def standard : LevelConfig := ⟨[], .unset⟩

/-- The level that is given for a slug, the last one that was given. -/
def override (config : LevelConfig) (slug : Text) : Level :=
  ((config.levels.reverse.find? fun entry => entry.1 = slug).map Prod.snd).getD .unset

def levelOf (config : LevelConfig) (lint : Lint) : Level :=
  let given := config.override lint.slug
  let level := if given = .unset then lint.standardLevel else given
  if config.cap = .unset then level else level.min config.cap

def set (config : LevelConfig) (slug : Text) (level : Level) : LevelConfig :=
  { config with levels := config.levels ++ [(slug, level)] }

end LevelConfig

end ScopeLint
