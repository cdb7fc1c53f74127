import ScopeLint.Editor.Document
import ScopeLint.Editor.Position
import ScopeLint.Lint.Check
import ScopeLint.Settings

/-!
A language server without its transport: how it answers what an editor sends, and which
notifications it sends on its own. The disk is given anew with every message, since it may change
in between. Every analysis that succeeds publishes the findings of all files, and an empty list
for each file whose last published list no longer holds.
-/

namespace ScopeLint

structure EditorFinding where
  range : Range
  denied : Bool
  code : Text
  message : Text
  deriving DecidableEq, Repr

namespace EditorFinding

/-- The severities of the protocol: errors are 1, warnings 2. -/
def severity (finding : EditorFinding) : Nat := if finding.denied then 1 else 2

def signature : Text := "shelly"

/-- A diagnostic about a source text, with its notes on lines of their own. -/
def ofDiagnostic (source : Text) (diagnostic : Diagnostic) : EditorFinding :=
  { range := if diagnostic.isWholeFile then .zero else .ofSpan source diagnostic.span
    denied := diagnostic.level = .deny
    code := diagnostic.code
    message := Text.join "\n" (diagnostic.message :: diagnostic.notes) }

end EditorFinding

inductive Notification where
  /-- The findings of a file, in place of all that were sent for it before. -/
  | findings (uri : Text) (list : List EditorFinding)
  /-- An error message for the user. -/
  | failure (message : Text)
  deriving DecidableEq, Repr

structure Symbol where
  name : Text
  kind : ItemKind
  range : Range
  deriving DecidableEq, Repr

/-- The kinds of the protocol: classes are 5, functions 12. -/
def Symbol.code (symbol : Symbol) : Nat := if symbol.kind = .classType then 5 else 12

structure Capabilities where
  name : Text
  version : Text
  definitions : Bool
  symbols : Bool
  /-- Documents are opened and closed by notification. -/
  openClose : Bool
  /-- How changes are sent: 1 is the whole text every time. -/
  changeKind : Nat
  /-- Whether saving sends the text. -/
  savedText : Bool
  deriving DecidableEq, Repr

inductive Message where
  | connect (rootUri rootPath : Option Text)
  | opened (uri : Text) (version : Int) (content : Text)
  /-- The last of the texts is the new one, none being the empty one. -/
  | changed (uri : Text) (version : Int) (texts : List Text)
  | saved
  | closed (uri : Text)
  | symbols (uri : Text)
  | definition (uri : Text) (position : Position)
  /-- The delay behind a change is over. -/
  | delayOver
  /-- Analyse at once. -/
  | analyze
  | shutdown
  | exit
  | setTrace
  deriving DecidableEq, Repr

inductive Answer where
  | nothing
  | capabilities (known : Capabilities)
  | symbols (list : List Symbol)
  | location (uri : Text) (range : Range)
  | ran (whether : Bool)
  | exits (count : Nat)
  deriving DecidableEq, Repr

inductive Delay where
  | never
  | running
  | over
  deriving DecidableEq, Repr

structure Server where
  /-- The canonical path of the analysed directory, once it is known. -/
  root : Option Text
  documents : DocumentStore := .empty
  /-- The last analysis that succeeded. -/
  analysis : Option Analysis := none
  /-- The URIs of files whose last published list is not empty, in byte order. -/
  published : List Text := []
  delay : Delay := .never
  /-- How often the editor asked to exit. -/
  exits : Nat := 0

inductive CheckError where
  | settings (error : SettingsError)
  | levels (fault : LevelFault)
  | workspace (error : WorkspaceError)

def CheckError.message : CheckError → Text
  | settings error => error.message
  | levels fault => fault.message
  | workspace error => error.message

namespace Server

def capabilities : Capabilities :=
  { name := "shelly-lsp", version := "0.1.0", definitions := true, symbols := true
    openClose := true, changeKind := 1, savedText := false }

/-- Analyses a directory with the open documents in place of their files. -/
def check (workspace : Workspace) (documents : DocumentStore) (root : Text) :
    Except CheckError (Analysis × List Diagnostic) := do
  let settings ← (Settings.load workspace root).mapError .settings
  let config ← settings.levelConfig.mapError .levels
  let options := settings.analysisOptions [] documents.overlay
  let analysis ← (workspace.analyze options root).2.mapError .workspace
  return (analysis, Lint.run Lint.all config analysis)

/-- The text that positions in a file refer to: the analysed one, that of an open document, or
that on disk. A file that cannot be read has an empty text. -/
def sourceOf (workspace : Workspace) (server : Server) (path : Text) : Text :=
  match server.analysis.bind fun analysis => analysis.project.files.get? path with
  | some file => file.source
  | none =>
      let document := server.documents.get? (Uri.ofPath path)
        <|> server.documents.all.find? fun document => document.path = path
      match document with
      | some document => document.content.dropMark
      | none =>
          match workspace.read path with
          | .ok content => content.dropMark
          | .error _ => []

/-- The findings of the diagnostics by the URI of their file, each list in order. -/
def group (workspace : Workspace) (server : Server) (diagnostics : List Diagnostic) :
    Table (List EditorFinding) :=
  diagnostics.foldl (fun table diagnostic =>
    let uri := Uri.ofPath diagnostic.path
    let finding := EditorFinding.ofDiagnostic (sourceOf workspace server diagnostic.path) diagnostic
    table.insert uri ((table.get? uri).getD [] ++ [finding])) ∅

/-- The lists to publish: the findings, and an empty list for each file that had some before and
has none now. -/
def withCleared (published : List Text) (found : Table (List EditorFinding)) :
    Table (List EditorFinding) :=
  published.foldl (fun table uri => if table.contains uri then table else table.insert uri []) found

def publish (workspace : Workspace) (server : Server) (diagnostics : List Diagnostic) :
    Server × List Notification :=
  let lists := withCleared server.published (group workspace server diagnostics)
  let published := (lists.entries.filter fun entry => !entry.2.isEmpty).map Prod.fst
  ({ server with published }, lists.entries.map fun (uri, list) => .findings uri list)

/-- Analyses and publishes. Without a root nothing happens, and after a failure everything stays
as it was. -/
def run (workspace : Workspace) (server : Server) : Server × List Notification :=
  match server.root with
  | none => (server, [])
  | some root =>
      match check workspace server.documents root with
      | .error error => (server, [.failure ("shelly: " ++ error.message)])
      | .ok (analysis, diagnostics) =>
          publish workspace { server with analysis := some analysis } diagnostics

def documentText? (workspace : Workspace) (server : Server) (uri : Text) : Option Text :=
  match server.documents.get? uri with
  | some document => some document.content
  | none =>
      let source := sourceOf workspace server (workspace.canonical (Uri.toPath uri))
      if source = [] then none else some source

/-- The definitions of a source text. One that is no script has none. -/
def symbolsOf (source : Text) : List Symbol :=
  match Script.read source with
  | .error _ => []
  | .ok script => script.definitions.map fun definition =>
      ⟨definition.item.name, definition.item.kind, .ofSpan source.dropMark definition.span⟩

def definitionAt? (workspace : Workspace) (server : Server) (uri : Text) (position : Position) :
    Option (Text × Range) := do
  let analysis ← server.analysis
  let path := workspace.canonical (Uri.toPath uri)
  let file ← analysis.project.files.get? path
  let scope ← analysis.scopes.get? path
  let usage ← file.usages.find? fun usage =>
    (Range.ofSpan file.source usage.span).contains position
  let origin ← scope.lookup usage.item
  let target ← analysis.project.files.get? origin.file
  return (Uri.ofPath origin.file, .ofSpan target.source origin.definition.span)

/-- The root that an editor asks for, which counts only while there is none. -/
def rootFor (workspace : Workspace) (server : Server) (rootUri rootPath : Option Text) :
    Option Text :=
  server.root <|> (rootUri.map Uri.toPath <|> rootPath).map workspace.canonical

/-- Takes a message: the server after it, what it sends on its own, and its answer. -/
def handle (workspace : Workspace) (server : Server) :
    Message → Server × List Notification × Answer
  | .connect rootUri rootPath =>
      ({ server with root := server.rootFor workspace rootUri rootPath }, [],
        .capabilities capabilities)
  | .opened uri version content =>
      let documents := server.documents.add workspace uri version content
      let (server, sent) := run workspace { server with documents }
      (server, sent, .nothing)
  | .changed uri version texts =>
      let documents := server.documents.change workspace uri version (texts.getLastD [])
      ({ server with documents, delay := .running }, [], .nothing)
  | .saved =>
      let (server, sent) := run workspace server
      (server, sent, .nothing)
  | .closed uri =>
      let (server, sent) := run workspace { server with documents := server.documents.close uri }
      (server, sent, .nothing)
  | .symbols uri =>
      match documentText? workspace server uri with
      | some source => (server, [], .symbols (symbolsOf source))
      | none => (server, [], .nothing)
  | .definition uri position =>
      match definitionAt? workspace server uri position with
      | some (target, range) => (server, [], .location target range)
      | none => (server, [], .nothing)
  | .delayOver =>
      if server.delay = .running then
        let (server, sent) := run workspace { server with delay := .over }
        (server, sent, .ran true)
      else (server, [], .ran false)
  | .analyze =>
      let (server, sent) := run workspace server
      (server, sent, .nothing)
  | .shutdown => ({ server with delay := .never }, [], .nothing)
  | .exit =>
      let exits := server.exits + 1
      ({ server with exits }, [], .exits exits)
  | .setTrace => (server, [], .nothing)

end Server

end ScopeLint
