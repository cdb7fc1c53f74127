import ScopeLint.Allow
import ScopeLint.Lint.Basic
import ScopeLint.Names
import ScopeLint.Project.Scope
import ScopeLint.Project.Strict

/-!
What is wrong with the files of a project. Every usage that is not a known command is looked up
in the scope of its file: it may be unknown, spelled differently from its definition, or defined
in a file that is not imported directly. Each such list keeps the first usage of a name. Imports
are credited when a usage needs them, and unused when nothing credits them.
-/

namespace ScopeLint

/-- The commands that need no definition in the project. -/
structure KnownCommands where
  builtins : NameSet
  extras : NameSet

def KnownCommands.contains (known : KnownCommands) (name : Text) : Bool :=
  known.builtins.contains name || known.extras.contains name

/-- A usage that is defined in a file which the using file does not import itself. -/
structure IndirectUse where
  usage : Usage
  origin : Origin
  /-- The files from the using to the defining one. -/
  chain : List Text
  /-- The direct imports through which the definition is visible. -/
  via : List Text
  /-- Those of them that count as used because of this usage. -/
  credited : List Text
  /-- The file to import directly; none where import bags forward the definition. -/
  suggestion : Option Text
  deriving DecidableEq, Repr

/-- A usage that is spelled differently from its definition. -/
structure CasingMismatch where
  usage : Usage
  origin : Origin
  deriving DecidableEq, Repr

structure UnusedImport where
  path : Text
  line : Import
  deriving DecidableEq, Repr

structure FileFindings where
  file : ProjectFile
  unknown : List Usage
  indirect : List IndirectUse
  casing : List CasingMismatch
  unusedImports : List UnusedImport
  noStrictMode : Bool
  invalidTestcases : List InvalidTestcase

def FileFindings.isEmpty (found : FileFindings) : Bool :=
  found.unknown.isEmpty && found.indirect.isEmpty && found.casing.isEmpty
    && found.unusedImports.isEmpty && !found.noStrictMode && found.invalidTestcases.isEmpty

/-- The first usage of every key that is not among those seen before. -/
def Usage.firsts : (seen : List Key) → List Usage → List Usage
  | _, [] => []
  | seen, usage :: rest =>
      if seen.elem usage.item.key then firsts seen rest
      else usage :: firsts (usage.item.key :: seen) rest

/-- A file seen from inside its project: what its usages are judged by. -/
structure FileView where
  project : Project
  scopes : Table Scope
  known : KnownCommands
  file : ProjectFile
  scope : Scope

namespace FileView

/-- Known commands are never looked up, even when the project defines them. -/
def looksUp (view : FileView) (usage : Usage) : Bool :=
  usage.item.kind = .classType || !view.known.contains usage.item.name

def origin? (view : FileView) (usage : Usage) : Option Origin :=
  if view.looksUp usage then view.scope.lookup usage.item else none

/-- Whether the line of a usage allows it, by its own name or by the lint. -/
def isAllowed (view : FileView) (lint : Lint) (usage : Usage) : Bool :=
  let line := lineAt view.file.source usage.span.start.byte
  allows line usage.item.name || allows line lint.slug

/-- A file that no file of the project imports is where execution starts. -/
def isEntry (view : FileView) : Bool := !view.project.isImported view.file.path

def isDirect (view : FileView) (path : Text) : Bool := view.scope.direct.elem path

/-- The direct imports in whose scope a key refers to the file that it refers to here. -/
def forwarders (view : FileView) (key : Key) (origin : Origin) : List Text :=
  view.file.importPaths.filter fun path =>
    view.isDirect path &&
      ((view.scopes.get? path).bind fun scope => scope.find? key).map Origin.file
        = some origin.file

def isBag (view : FileView) (path : Text) : Bool :=
  ((view.project.files.get? path).map ProjectFile.isImportBag).getD false

/-- The first of some files with the shortest chain to a target, given the best so far. -/
def nearest (view : FileView) (target : Text) : (best : Option (Text × Nat)) → List Text → Option Text
  | best, [] => best.map Prod.fst
  | best, path :: rest =>
      let length := (view.project.importChain path target).length
      let better := length ≠ 0 && (best.all fun (_, least) => length < least)
      nearest view target (if better then some (path, length) else best) rest

/-- The direct imports that a definition which arrives through `via` is credited to: all import
bags among them, or else the one that is closest to the definition. -/
def creditsVia (view : FileView) (via : List Text) (origin : Origin) : List Text :=
  let bags := via.filter view.isBag
  if bags.isEmpty then ((view.nearest origin.file none via).or via.head?).toList else bags

def credits (view : FileView) (key : Key) (origin : Origin) : List Text :=
  if origin.file = view.file.path then []
  else if view.isDirect origin.file then [origin.file]
  else view.creditsVia (view.forwarders key origin) origin

/-- Non-class usages that refer to nothing. -/
def isUnknown (view : FileView) (usage : Usage) : Bool :=
  view.looksUp usage && usage.item.kind ≠ .classType && (view.scope.lookup usage.item).isNone
    && !view.isAllowed .unknownFunctions usage

def unknown (view : FileView) : List Usage :=
  Usage.firsts [] (view.file.usages.filter view.isUnknown)

def isMiscased (view : FileView) (usage : Usage) : Bool :=
  (view.origin? usage).any (fun origin => origin.definition.item.name ≠ usage.item.name)
    && !view.isAllowed .invalidLetterCasing usage

def casing (view : FileView) : List CasingMismatch :=
  (Usage.firsts [] (view.file.usages.filter view.isMiscased)).filterMap fun usage =>
    (view.origin? usage).map fun origin => ⟨usage, origin⟩

/-- Usages whose definition is neither in the file nor in a direct import. -/
def isIndirect (view : FileView) (usage : Usage) : Bool :=
  (view.origin? usage).any
      (fun origin => origin.file ≠ view.file.path && !view.isDirect origin.file)
    && !view.isAllowed .indirectImports usage

def explain (view : FileView) (usage : Usage) (origin : Origin) : IndirectUse :=
  let via := view.forwarders usage.item.key origin
  let credited := view.creditsVia via origin
  { usage, origin, via, credited
    chain := match credited with
      | [] => view.project.importChain view.file.path origin.file
      | first :: _ => view.file.path :: view.project.importChain first origin.file
    suggestion := if via.any view.isBag then none else some origin.file }

def indirect (view : FileView) : List IndirectUse :=
  (Usage.firsts [] (view.file.usages.filter view.isIndirect)).filterMap fun usage =>
    (view.origin? usage).map (view.explain usage)

def usageCredits (view : FileView) : List Text :=
  view.file.usages.flatMap fun usage =>
    ((view.origin? usage).map (view.credits usage.item.key)).getD []

/-- The imports through which an entry file gets strict mode. -/
def strictCredits (view : FileView) : List Text :=
  if view.isEntry then ((view.scope.lookup strictMode).map (view.credits strictMode.key)).getD []
  else []

/-- Direct imports that nothing credits. Import bags are not checked. -/
def unusedImports (view : FileView) : List UnusedImport :=
  if view.file.isImportBag then []
  else
    let credited := view.usageCredits ++ view.strictCredits
    (view.file.imports.entries.filter fun entry =>
      view.isDirect entry.1 && !credited.elem entry.1).map fun entry => ⟨entry.1, entry.2⟩

def findings (view : FileView) : FileFindings :=
  { file := view.file
    unknown := view.unknown
    indirect := view.indirect
    casing := view.casing
    unusedImports := view.unusedImports
    noStrictMode := view.isEntry && !view.scope.has strictMode
    invalidTestcases := InvalidTestcase.ofFile view.file }

end FileView

structure Analysis where
  project : Project
  scopes : Table Scope
  files : List FileFindings

def Analysis.ofScopes (project : Project) (scopes : Table Scope) (known : KnownCommands) :
    Analysis :=
  { project, scopes
    files := project.files.values.filterMap fun file =>
      (scopes.get? file.path).map fun scope =>
        FileView.findings ⟨project, scopes, known, file, scope⟩ }

end ScopeLint
