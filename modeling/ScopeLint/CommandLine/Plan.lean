import ScopeLint.Lint.Check
import ScopeLint.Settings

/-!
What one analysis is to do: the settings of the directory with the options of the command line
applied on top. A level that is given by an option wins over the settings, and of the options
deny wins over warn and warn over allow, in whatever order they were given.
-/

namespace ScopeLint

structure AnalyzeOptions where
  json : Bool := false
  debugParser : Bool := false
  allow : List Text := []
  warn : List Text := []
  deny : List Text := []
  /-- The highest level of any lint, empty for no limit. -/
  cap : Text := []
  exclude : List Text := []
  deriving DecidableEq, Repr

structure Plan where
  directory : Text
  analysis : AnalysisOptions
  levels : LevelConfig

inductive PlanError where
  | settings (error : SettingsError)
  | levels (path : Text) (fault : LevelFault)
  | unknownLint (name : Text)
  | unknownCap (name : Text)

def PlanError.message : PlanError → Text
  | settings error => error.message
  | levels path fault => path ++ ": " ++ fault.message
  | unknownLint name => "unknown lint: " ++ name.quote ++ " (see shelly show-lints)"
  | unknownCap name => "--cap-lints: " ++ Level.unknownMessage name

namespace AnalyzeOptions

/-- The levels that the options give, the ones that win last. -/
def overrides (options : AnalyzeOptions) : List (Text × Level) :=
  options.allow.map (·, .allow) ++ options.warn.map (·, .warn) ++ options.deny.map (·, .deny)

def override (config : LevelConfig) (entry : Text × Level) : Except PlanError LevelConfig :=
  match Lint.ofSlug? entry.1 with
  | some _ => .ok (config.set entry.1 entry.2)
  | none => .error (.unknownLint entry.1)

def apply (options : AnalyzeOptions) (config : LevelConfig) : Except PlanError LevelConfig := do
  let config ← options.overrides.foldlM override config
  if options.cap = [] then return config
  else match Level.parse? options.cap with
    | some cap => return { config with cap }
    | none => .error (.unknownCap options.cap)

end AnalyzeOptions

namespace Plan

def load (workspace : Workspace) (directory : Text) (options : AnalyzeOptions) :
    Except PlanError Plan := do
  let settings ← (Settings.load workspace directory).mapError .settings
  let config ← settings.levelConfig.mapError (.levels settings.path)
  let levels ← options.apply config
  return { directory, levels, analysis := settings.analysisOptions options.exclude ∅ }

end Plan

end ScopeLint
