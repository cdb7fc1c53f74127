import ScopeLint.CommandLine.Plan
import ScopeLint.CommandLine.Preferences
import ScopeLint.Lint.Guide
import ScopeLint.Prompt
import ScopeLint.Terminal.Snippet
import ScopeLint.Token.Classify
import ScopeLint.Token.Dump
import ScopeLint.Watcher

/-!
A run of the program as a value: from the files, the environment and the arguments to what is
printed and the exit status. The status is 0 when nothing is denied, 1 when a finding is, and 2
when the run fails.
-/

namespace ScopeLint

inductive Outcome where
  | clean
  /-- Some finding is denied. It has been printed already. -/
  | findings
  | failed (message : Text)
  deriving DecidableEq, Repr

def Outcome.code : Outcome → Nat
  | clean => 0
  | findings => 1
  | failed _ => 2

def Outcome.complaint : Outcome → Text
  | failed message => "error: " ++ message ++ "\n"
  | _ => []

structure Report where
  out : Text := []
  err : Text := []
  outcome : Outcome := .clean
  deriving DecidableEq, Repr

namespace Report

def fail (message : Text) : Report := { outcome := .failed message }

/-- The report with more in front of what is printed on the side. -/
def behind (report : Report) (err : Text) : Report := { report with err := err ++ report.err }

/-- The whole of what is printed on the side, the end of the run included. -/
def allErr (report : Report) : Text := report.err ++ report.outcome.complaint

end Report

namespace CommandLine

structure Environment where
  workspace : Workspace
  /-- Environment bindings. -/
  bindings : Table Text
  /-- What is typed while the program runs. -/
  input : Text := []

def snippetOf (diagnostic : Diagnostic) : Snippet :=
  let span := if diagnostic.isWholeFile then .zero else diagnostic.span
  { severity := if diagnostic.level = .deny then .error else .warning
    code := diagnostic.code
    message := diagnostic.message
    notes := diagnostic.notes
    regions := [{ file := diagnostic.file, path := diagnostic.path
                  line := span.start.line.toNat, col := span.start.col.toNat
                  endLine := span.stop.line.toNat, endCol := span.stop.col.toNat, label := [] }] }

/-- The source of a file as it was analyzed, or from disk if it was not. -/
def sourceOf (workspace : Workspace) (project : Project) (path : Text) : Option Text :=
  ((project.files.get? path).map ProjectFile.source) <|> (workspace.read path).toOption

def listing (workspace : Workspace) (project : Project) (json colored : Bool)
    (diagnostics : List Diagnostic) : Text :=
  if json then Diagnostic.jsonListing diagnostics
  else Snippet.renderAll colored (sourceOf workspace project) (diagnostics.map snippetOf)

/-- The token dump of a file under a line with its name. A file of a project can be read. -/
def dumpOf (colored : Bool) (file : ProjectFile) : Text :=
  match Token.read file.source with
  | .ok tokens => "=== " ++ file.name ++ "\n" ++ Token.dump file.source colored tokens ++ "\n"
  | .error _ => []

def carryOut (workspace : Workspace) (logLevel : LogLevel) (colored : Bool)
    (options : AnalyzeOptions) (plan : Plan) : Report :=
  let (log, result) := workspace.analyze plan.analysis plan.directory
  let err := LogEntry.lines logLevel log
  match result with
  | .error error => { err, outcome := .failed error.message }
  | .ok analysis =>
      let dump := if options.debugParser then analysis.project.files.values.flatMap (dumpOf colored)
        else []
      let diagnostics := Lint.run Lint.all plan.levels analysis
      { out := dump ++ listing workspace analysis.project options.json colored diagnostics
        err
        outcome := if Diagnostic.anyDenied diagnostics then .findings else .clean }

def logLevel (preferences : Preferences) : Except Text LogLevel :=
  match LogLevel.parse? preferences.logLevel with
  | some level => .ok level
  | none => .error ("--log-level: not a valid logrus Level: " ++ preferences.logLevel.quote)

def repositoryWarning (workspace : Workspace) (directory : Text) : Text :=
  match workspace.stat (Path.join directory ".git") with
  | .ok _ => []
  | .error _ => "warning: not a root of a repository\n"

def analyze (workspace : Workspace) (preferences : Preferences) (options : AnalyzeOptions) :
    Report :=
  match logLevel preferences with
  | .error message => .fail message
  | .ok level =>
      let report : Report := match Plan.load workspace preferences.directory options with
        | .error error => .fail error.message
        | .ok plan => carryOut workspace level preferences.colored options plan
      report.behind (repositoryWarning workspace preferences.directory)

/-- One analysis of the watch command. Its failures are only printed. -/
def analyzeOnce (workspace : Workspace) (preferences : Preferences) (level : LogLevel)
    (options : AnalyzeOptions) : Report :=
  match Plan.load workspace preferences.directory options with
  | .error error => { err := "error: " ++ error.message ++ "\n" }
  | .ok plan =>
      let report := carryOut workspace level preferences.colored options plan
      { out := report.out ++ "Waiting for changes...\n", err := report.allErr }

/-- The watch command up to the point where it waits for changes. -/
def watch (workspace : Workspace) (preferences : Preferences) (options : AnalyzeOptions) :
    Report :=
  match logLevel preferences with
  | .error message => .fail message
  | .ok level =>
      match Plan.load workspace preferences.directory options with
      | .error error => .fail error.message
      | .ok plan =>
          match Excludes.parse plan.analysis.exclude with
          | .error (_, error) => .fail error.message
          | .ok excludes =>
              let first := analyzeOnce workspace preferences level options
              let root := Path.absolute workspace.working preferences.directory
              let watcher : Watcher :=
                { root, excludes, extensions := [Script.extension], names := [Settings.fileName] }
              match watcher.observe workspace root with
              | .error error => { first with outcome := .failed error.message }
              | .ok _ =>
                  let waiting : LogEntry := ⟨.info, "Watching for changes", [("root", .text root)]⟩
                  { first with err := first.err ++ LogEntry.lines level [waiting] }

/-- A lint with its level, and the standard level where that is another one. -/
def lintLine (config : LevelConfig) (lint : Lint) : Text :=
  let level := config.levelOf lint
  let note : Text := if level = lint.standardLevel then []
    else " (overridden from default " ++ lint.standardLevel.text ++ ")"
  Text.padLeft 30 lint.slug ++ ": " ++ level.text ++ note ++ "\n"

def levelsOf (workspace : Workspace) (directory : Text) : Except Text LevelConfig := do
  let settings ← (Settings.load workspace directory).mapError SettingsError.message
  settings.levelConfig.mapError LevelFault.message

def showLints (workspace : Workspace) (directory : Text) : Report :=
  let (note, config) : Text × LevelConfig := match levelsOf workspace directory with
    | .ok config => ([], config)
    | .error message => ("Note: couldn't parse shelly config (" ++ message ++ ")\n\n", .standard)
  { out := note ++ "Available lints:\n" ++ Lint.all.flatMap (lintLine config)
      ++ "\nUse shelly.toml config or -A/-W/-D flags for the analyze subcommand\n"
      ++ "to change the default levels.\n" }

def tokens (workspace : Workspace) (colored : Bool) (path : Text) : Report :=
  match workspace.read path with
  | .error error => .fail error.message
  | .ok content =>
      let source := content.dropMark
      match Token.read source with
      | .error error => .fail (path ++ ": " ++ error.message)
      | .ok tokens => { out := Token.dump source colored tokens }

def optionsOf (arguments : Arguments) : AnalyzeOptions :=
  { json := arguments.isOn .json
    debugParser := arguments.isOn .debugParser
    allow := arguments.values .allow
    warn := arguments.values .warn
    deny := arguments.values .deny
    cap := (arguments.value? .capLints).getD []
    exclude := arguments.values .exclude }

def usageLine (command : Command) : Text := "  " ++ command.path ++ " [flags]\n"

def usage : Text :=
  "Usage:\n" ++ (Command.root :: Command.named).flatMap usageLine

/-- Runs a command. The one that serves an editor has nothing to do without a transport. -/
def runCommand (environment : Environment) (preferences : Preferences) (arguments : Arguments) :
    Report :=
  let workspace := environment.workspace
  match arguments.command, arguments.rest with
  | .root, _ => analyze workspace preferences {}
  | .analyze, _ => analyze workspace preferences (optionsOf arguments)
  | .watch, _ => watch workspace preferences (optionsOf arguments)
  | .showLints, _ =>
      if arguments.isOn .guide then { out := Lint.guide }
      else showLints workspace preferences.directory
  | .tokens, path :: _ => tokens workspace preferences.colored path
  | .tokens, [] => { out := Prompt.session environment.input preferences.colored }
  | .serve, _ => {}
  | .help, _ => { out := usage }

structure Run where
  report : Report
  warnings : Text := []

/-- Runs the program. Flags are read first, then the preferences file, then the other arguments
are looked at. -/
def run (environment : Environment) (arguments : List Text) : Run :=
  match Arguments.parse arguments with
  | .error error => { report := .fail error.message }
  | .ok arguments =>
      if arguments.isOn .help then { report := { out := usage } }
      else
        let (warnings, file) : Text × Table Text :=
          match PreferenceFile.load environment.workspace (arguments.value? .config)
            (environment.bindings.get? "HOME") with
          | .ok file => ([], file)
          | .error fault => ("warning: reading config: " ++ fault.message ++ "\n", ∅)
        let report : Report := match arguments.restFault? with
          | some message => .fail message
          | none =>
              runCommand environment (.ofSources arguments environment.bindings file) arguments
        { report, warnings }

end CommandLine

end ScopeLint
