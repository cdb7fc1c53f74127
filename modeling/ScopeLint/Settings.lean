import ScopeLint.Lint.Basic
import ScopeLint.Names
import ScopeLint.Project.Workspace
import ScopeLint.Toml.Document

/-!
The settings of a project: levels of lints, extra commands and excluded paths, read from a file in
the analyzed directory. A setting's name is matched without regard to case when no exact name
fits, and a key that is no setting is an error, so that a misspelt one is not silently ignored.
-/

namespace ScopeLint

open Toml (Members Value)

/-- The settings of a project. What is `none` was not written. -/
structure Settings where
  /-- Level names by the slug of a lint, both as written. -/
  levels : Option (Table Text) := none
  cmdlets : Option (List Text) := none
  exclude : Option (List Text) := none
  /-- The file that was read, empty without a file. -/
  path : Text := []

inductive SettingsFault where
  /-- The text is no document, or a setting has a value of the wrong kind. -/
  | malformed (error : Toml.Error)
  /-- Keys that are no settings, in the order they were written. -/
  | unknownKeys (keys : List Toml.Key)

def SettingsFault.message : SettingsFault → Text
  | malformed error => error.message
  | unknownKeys keys => "unknown configuration keys: " ++ Text.join ", " (keys.map Toml.keyText)

inductive LevelFault where
  | unknownLint (slug : Text)
  | unknownLevel (slug name : Text)
  deriving DecidableEq, Repr

def LevelFault.message : LevelFault → Text
  | unknownLint slug => "unknown lint in [levels]: " ++ slug.quote
  | unknownLevel slug name => "[levels] " ++ slug ++ ": " ++ Level.unknownMessage name

inductive SettingsError where
  | file (error : FileError)
  | invalid (path : Text) (fault : SettingsFault)

def SettingsError.message : SettingsError → Text
  | file error => error.message
  | invalid path fault => path ++ ": " ++ fault.message

namespace Settings

def fileName : Text := "shelly.toml"

inductive Field where
  | levels
  | extras
  | exclude
  deriving DecidableEq, Repr

def Field.all : List Field := [levels, extras, exclude]

def Field.name : Field → Text
  | levels => "levels"
  | extras => "extras"
  | exclude => "exclude"

def Field.ofKey? (key : Text) : Option Field :=
  (all.find? fun field => field.name = key) <|> all.find? fun field => field.name.sameFold key

/-- The setting for extra commands, inside the table of extras. -/
def cmdletsName : Text := "cmdlets"

def string (document : Toml.Document) (key : Toml.Key) : Value → Except Toml.Error Text
  | .scalar (.string content) => .ok content
  | value => .error (document.error key (.wrongType value.typeName "string"))

def strings (document : Toml.Document) (key : Toml.Key) : Value → Except Toml.Error (List Text)
  | .array items => items.mapM (string document key)
  | .tables elements => elements.mapM fun element => string document key (.table element)
  | value => .error (document.error key (.wrongType value.typeName "slice"))

/-- Settings while they are taken from a document, with the keys that were understood. -/
structure Progress where
  settings : Settings := {}
  known : List Toml.Key := []

def Progress.learn (progress : Progress) (key : Toml.Key) : Progress :=
  { progress with known := key :: progress.known }

def takeLevels (document : Toml.Document) (front : Toml.Key) (progress : Progress)
    (members : Members) : Except Toml.Error Progress :=
  members.foldlM (fun progress (slug, value) => do
    let key := front ++ [slug]
    let level ← string document key value
    let levels := (progress.settings.levels.getD ∅).insert slug level
    return ({ progress with settings := { progress.settings with levels } }).learn key)
    { progress with settings :=
        { progress.settings with levels := some (progress.settings.levels.getD ∅) } }

def takeExtras (document : Toml.Document) (front : Toml.Key) (progress : Progress)
    (members : Members) : Except Toml.Error Progress :=
  members.foldlM (fun progress (name, value) =>
    if name.sameFold cmdletsName then do
      let key := front ++ [name]
      let cmdlets ← strings document key value
      return ({ progress with settings := { progress.settings with cmdlets } }).learn key
    else return progress) progress

def extrasRecord : Text := "config.Extras"

/-- Takes one member of a document. Levels that are no table are passed over. -/
def take (document : Toml.Document) (progress : Progress) (member : Text × Value) :
    Except Toml.Error Progress :=
  let (name, value) := member
  let learnt := progress.learn [name]
  match Field.ofKey? name, value with
  | some .levels, .table members => takeLevels document [name] learnt members
  | some .levels, _ => return learnt
  | some .extras, .table members => takeExtras document [name] learnt members
  | some .extras, value =>
      .error (document.error [name] (.tableWanted extrasRecord value.typeName))
  | some .exclude, value => do
      let exclude ← strings document [name] value
      return { learnt with settings := { learnt.settings with exclude } }
  | none, _ => return progress

def parse (text : Text) : Except SettingsFault Settings := do
  let document ← (Toml.Document.read text).mapError .malformed
  let progress ← (document.members.foldlM (take document) ({} : Progress)).mapError .malformed
  let unknown := document.written.filter fun key => !progress.known.contains key
  if unknown.isEmpty then .ok progress.settings else .error (.unknownKeys unknown)

/-- Loads the settings of a directory. Without a file there are no settings. -/
def load (workspace : Workspace) (directory : Text) : Except SettingsError Settings :=
  let path := Path.join directory fileName
  match workspace.read path with
  | .error error => if error.fault = .missing then .ok {} else .error (.file error)
  | .ok text =>
      match parse text with
      | .ok settings => .ok { settings with path }
      | .error fault => .error (.invalid path fault)

def levelOf (entry : Text × Text) : Except LevelFault (Text × Level) :=
  let (slug, name) := entry
  match Lint.ofSlug? slug, Level.parse? name with
  | none, _ => .error (.unknownLint slug)
  | some _, none => .error (.unknownLevel slug name)
  | some _, some level => .ok (slug, level)

/-- The levels as a lint configuration. The first fault in byte order of the slugs counts. -/
def levelConfig (settings : Settings) : Except LevelFault LevelConfig := do
  let levels ← (settings.levels.getD ∅).entries.mapM levelOf
  return ⟨levels, .unset⟩

def extraCommands (settings : Settings) : NameSet := .ofNames (settings.cmdlets.getD [])

def analysisOptions (settings : Settings) (exclude : List Text) (overlay : Table Text) :
    AnalysisOptions :=
  { known := ⟨.standard, settings.extraCommands⟩
    exclude := settings.exclude.getD [] ++ exclude
    overlay }

end Settings

end ScopeLint
