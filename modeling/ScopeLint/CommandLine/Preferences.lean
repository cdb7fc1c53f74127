import ScopeLint.CommandLine.Arguments
import ScopeLint.CommandLine.PreferenceFile
import ScopeLint.Terminal.Color

/-!
The preferences of a user. Each has four sources: a flag, an environment variable, a preferences
file and a standard value; the first one that gives the preference decides.
-/

namespace ScopeLint

inductive Preference where
  | directory
  | color
  | logLevel
  deriving DecidableEq, Repr

namespace Preference

def flag : Preference → Flag
  | directory => .directory
  | color => .color
  | logLevel => .logLevel

def key (preference : Preference) : Text := preference.flag.name

def variableName : Preference → Text
  | directory => "SHELLY_DIRECTORY"
  | color => "SHELLY_COLOR"
  | logLevel => "SHELLY_LOG_LEVEL"

def standard : Preference → Text
  | directory => "."
  | color => "auto"
  | logLevel => "warn"

end Preference

structure Preferences where
  directory : Text
  color : Text
  logLevel : Text
  deriving DecidableEq, Repr

namespace Preferences

/-- The value of a preference from the first of its sources that gives one. An empty environment
variable gives none. -/
def choose (arguments : Arguments) (environment file : Table Text) (preference : Preference) :
    Text :=
  (arguments.value? preference.flag
    <|> (environment.get? preference.variableName).filter (· ≠ [])
    <|> file.get? preference.key).getD preference.standard

def ofSources (arguments : Arguments) (environment file : Table Text) : Preferences :=
  { directory := choose arguments environment file .directory
    color := choose arguments environment file .color
    logLevel := choose arguments environment file .logLevel }

/-- Whether output that goes to no terminal is coloured. A colour mode that does not exist
counts as none. -/
def colored (preferences : Preferences) : Bool :=
  match ColorMode.parse preferences.color with
  | .ok mode => mode.colorsPlainOutput
  | .error _ => false

end Preferences

end ScopeLint
