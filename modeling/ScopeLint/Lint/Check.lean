import ScopeLint.Lint.Diagnostic
import ScopeLint.Project.Findings

/-!
The lints at work: each one turns its part of an analysis into diagnostics.
-/

namespace ScopeLint

namespace Lint

/-- A finding before its lint and level are filled in. -/
structure Finding where
  path : Text
  /-- The place, zero for the whole file. -/
  span : Span
  message : Text
  notes : List Text
  deriving DecidableEq, Repr

def ofProblems (analysis : Analysis) (wanted : ProblemKind → Bool) (report : Problem → Finding) :
    List Finding :=
  (analysis.project.problems.filter fun problem => wanted problem.kind).map report

def syntaxFinding (problem : Problem) : Finding :=
  ⟨problem.path, problem.span, "Syntax error: " ++ problem.text,
    ["Column " ++ Text.ofInt problem.span.start.col,
      "If this is valid PowerShell syntax, please file an issue"]⟩

def missingFinding (project : Project) (problem : Problem) : Finding :=
  ⟨problem.path, problem.span, "Invalid import",
    ["File not found: " ++ project.displayName problem.target]⟩

def unrecognizedFinding (project : Project) (problem : Problem) : Finding :=
  if problem.kind = .duplicateImport then
    ⟨problem.path, problem.span, "Duplicate import",
      ["Already imported: " ++ project.displayName problem.target]⟩
  else
    ⟨problem.path, problem.span, "Unrecognized import statement",
      ["Recognized imports are \x60$PSScriptRoot\\..\x60 or \x60$here\\$sut\x60"]⟩

def unknownFinding (path : Text) (usage : Usage) : Finding :=
  ⟨path, usage.span, "Not in scope: " ++ usage.item.name, []⟩

def indirectFinding (project : Project) (path : Text) (use : IndirectUse) : Finding :=
  let chain := Text.join " -> " (use.chain.map project.fileName)
  let suggestion := use.suggestion.toList.map fun file =>
    "Consider importing " ++ project.fileName file ++ " directly"
  ⟨path, use.usage.span, "Indirectly imported: " ++ use.usage.item.name,
    ("Import chain: " ++ chain) :: suggestion⟩

def casingFinding (project : Project) (path : Text) (mismatch : CasingMismatch) : Finding :=
  ⟨path, mismatch.usage.span, "Function name differs between usage and definition",
    ["Check whether the letter casing is the same",
      "Defined as " ++ mismatch.origin.definition.item.name ++ " in "
        ++ project.fileName mismatch.origin.file]⟩

def unusedFinding (project : Project) (path : Text) (unused : UnusedImport) : Finding :=
  ⟨path, unused.line.span, "Unused import",
    ["Nothing defined in " ++ project.fileName unused.path ++ " is used"]⟩

def forbiddenList : Text :=
  let quoted := InvalidTestcase.forbidden.map fun char =>
    if char = '\\' then Text.ofString "'\\\\'" else "'" ++ Text.ofChar char ++ "'"
  "[" ++ Text.join ", " quoted ++ "]"

def testnameFinding (path : Text) (invalid : InvalidTestcase) : Finding :=
  ⟨path, invalid.testcase.span, "Testname contains invalid characters",
    ["These characters are invalid in a file name: " ++ forbiddenList]⟩

/-- What a lint finds, in the order of problems or of files. -/
def findings (analysis : Analysis) : Lint → List Finding
  | syntaxErrors => ofProblems analysis (· = .syntaxError) syntaxFinding
  | nonexistingImports =>
      ofProblems analysis (· = .missingImport) (missingFinding analysis.project)
  | unrecognizedImports =>
      ofProblems analysis (fun kind => kind = .unrecognizedImport || kind = .duplicateImport)
        (unrecognizedFinding analysis.project)
  | unknownFunctions => analysis.files.flatMap fun found =>
      found.unknown.map (unknownFinding found.file.path)
  | indirectImports => analysis.files.flatMap fun found =>
      found.indirect.map (indirectFinding analysis.project found.file.path)
  | invalidLetterCasing => analysis.files.flatMap fun found =>
      found.casing.map (casingFinding analysis.project found.file.path)
  | unusedImports => analysis.files.flatMap fun found =>
      found.unusedImports.map (unusedFinding analysis.project found.file.path)
  | noStrictMode => (analysis.files.filter FileFindings.noStrictMode).map fun found =>
      ⟨found.file.path, .zero, "Strict mode not enabled for this file", []⟩
  | invalidTestnameCharacters => analysis.files.flatMap fun found =>
      found.invalidTestcases.map (testnameFinding found.file.path)

def report (project : Project) (lint : Lint) (level : Level) (finding : Finding) : Diagnostic :=
  { file := project.displayName finding.path
    line := finding.span.start.line
    col := finding.span.start.col
    message := finding.message
    code := lint.slug
    level
    notes := finding.notes
    path := finding.path
    span := finding.span }

/-- The diagnostics of one lint, none when it is allowed. -/
def check (analysis : Analysis) (config : LevelConfig) (lint : Lint) : List Diagnostic :=
  let level := config.levelOf lint
  if level.rank ≤ Level.allow.rank then []
  else (lint.findings analysis).map (lint.report analysis.project level)

def run (lints : List Lint) (config : LevelConfig) (analysis : Analysis) : List Diagnostic :=
  Diagnostic.sort (lints.flatMap (check analysis config))

end Lint

end ScopeLint
