import ScopeLint.Project.Workspace
import ScopeLint.Proofs.Project.Credits
import ScopeLint.Proofs.Project.Cycles
import ScopeLint.Proofs.Project.Reimport
import ScopeLint.Proofs.Script.Items

/-!
Strict mode from the texts of a workspace to its findings. Every file of a project is a script that
was read from some text, with a mark behind its own definitions just if it calls the command for
strict mode. Scopes carry the mark along the imports, and nothing else is ever found under its key,
so a file where execution starts lacks strict mode just if no file within its reach calls the
command.
-/

namespace ScopeLint

namespace ProjectFile

/-- The mark for some usages: one at the first call of the command for strict mode. -/
def strictMarks (usages : List Usage) : List Definition :=
  ((usages.find? fun usage => usage.item.name.sameFold strictCommand).map fun usage =>
    ⟨strictMode, usage.span⟩).toList

theorem markStrictMode_eq (file : ProjectFile) : file.markStrictMode =
    { file with definitions := file.definitions ++ strictMarks file.usages } := by
  unfold markStrictMode strictMarks
  split
  next usage found => simp [found]
  next absent => simp [absent]

theorem definitions_markStrictMode (file : ProjectFile) :
    file.markStrictMode.definitions = file.definitions ++ strictMarks file.usages := by
  rw [markStrictMode_eq]

theorem usages_markStrictMode (file : ProjectFile) : file.markStrictMode.usages = file.usages := by
  rw [markStrictMode_eq]

theorem path_markStrictMode (file : ProjectFile) : file.markStrictMode.path = file.path := by
  rw [markStrictMode_eq]

end ProjectFile

/-- A file that holds what was read from a text of the workspace, with the mark for strict mode. -/
structure Workspace.Holds (workspace : Workspace) (overlay : Table Text) (file : ProjectFile)
    (script : Script) : Prop where
  text : ∃ path text, file.path = workspace.canonical path ∧
    workspace.textOf overlay path = .ok text ∧ Script.read text = .ok script
  definitions : file.definitions = script.definitions ++ ProjectFile.strictMarks script.usages
  usages : file.usages = script.usages

namespace Workspace

variable {workspace : Workspace} {overlay : Table Text} {file : ProjectFile} {script : Script}

namespace Holds

theorem written (holds : workspace.Holds overlay file script) :
    (∀ definition ∈ script.definitions, definition.item.Written) ∧
      ∀ usage ∈ file.usages, usage.item.Written := by
  obtain ⟨path, text, -, -, accepted⟩ := holds.text
  rw [holds.usages]
  exact Script.written_of_read accepted

theorem eq_strictMode (holds : workspace.Holds overlay file script) {definition : Definition}
    (listed : definition ∈ file.definitions) (same : definition.item.key = strictMode.key) :
    definition.item = strictMode := by
  rw [holds.definitions] at listed
  rcases List.mem_append.mp listed with own | mark
  · exact absurd same (Item.key_ne_strictMode (holds.written.1 definition own))
  · obtain ⟨usage, -, rfl⟩ := Option.map_eq_some_iff.mp (Option.mem_toList.mp mark)
    rfl

/-- A file has the mark just if it calls the command for strict mode. -/
theorem marked_iff (holds : workspace.Holds overlay file script) :
    (∃ definition ∈ file.definitions, definition.item.key = strictMode.key) ↔
      ∃ usage ∈ file.usages, usage.item.kind = .function ∧
        usage.item.name.sameFold strictCommand = true := by
  constructor
  · rintro ⟨definition, listed, same⟩
    rw [holds.definitions] at listed
    rcases List.mem_append.mp listed with own | mark
    · exact absurd same (Item.key_ne_strictMode (holds.written.1 definition own))
    · obtain ⟨usage, found, -⟩ := Option.map_eq_some_iff.mp (Option.mem_toList.mp mark)
      have member : usage ∈ file.usages := by
        rw [holds.usages]
        exact List.mem_of_find?_eq_some found
      have called : usage.item.name.sameFold strictCommand = true := by
        simpa using List.find?_some found
      exact ⟨usage, member, Item.kind_of_strictCommand (holds.written.2 usage member) called, called⟩
  · rintro ⟨usage, member, -, called⟩
    rw [holds.usages] at member
    have sought : (script.usages.find? fun usage => usage.item.name.sameFold strictCommand).isSome :=
      List.find?_isSome.mpr ⟨usage, member, called⟩
    obtain ⟨first, found⟩ := Option.isSome_iff_exists.mp sought
    refine ⟨⟨strictMode, first.span⟩, ?_, rfl⟩
    rw [holds.definitions, ProjectFile.strictMarks, found]
    simp

end Holds

def HoldsAll (workspace : Workspace) (overlay : Table Text) (project : Project) : Prop :=
  ∀ path file, project.files.get? path = some file → ∃ script, workspace.Holds overlay file script

theorem files_addProblems (problems : List Problem) (project : Project) :
    (problems.foldl Project.addProblem project).files = project.files := by
  induction problems generalizing project with
  | nil => rfl
  | cons problem rest induction =>
      rw [List.foldl_cons, induction]
      rfl

theorem holdsAll_load (loading : Loading) (path : Text)
    (holds : workspace.HoldsAll overlay loading.project) :
    workspace.HoldsAll overlay (workspace.load overlay loading path).project := by
  unfold load
  dsimp only
  split
  next => exact holds
  next text there =>
    split
    next => exact holds
    next script accepted =>
      split
      next =>
        intro other file found
        refine holds other file ?_
        rw [← files_addProblems]
        exact found
      next =>
        intro other file found
        simp only [Loading.note, Project.add, Project.put, Table.get_insert] at found
        split at found
        next =>
          obtain rfl := Option.some.inj found
          refine ⟨script, ⟨⟨path, text, ?_, there, accepted⟩, ?_, ?_⟩⟩
          · exact ProjectFile.path_markStrictMode _
          · exact ProjectFile.definitions_markStrictMode _
          · exact ProjectFile.usages_markStrictMode _
        next =>
          rw [files_addProblems] at found
          exact holds other file found

theorem holdsAll_loads (paths : List Text) (loading : Loading)
    (holds : workspace.HoldsAll overlay loading.project) :
    workspace.HoldsAll overlay (paths.foldl (workspace.load overlay) loading).project := by
  induction paths generalizing loading with
  | nil => exact holds
  | cons path rest induction =>
      apply induction
      exact holdsAll_load loading path holds

/-- An analysis that succeeds is one of a project without cycles, made of texts of the workspace. -/
theorem exists_of_analyze {options : AnalysisOptions} {root : Text} {analysis : Analysis}
    (accepted : (workspace.analyze options root).2 = .ok analysis) :
    ∃ progress, analysis.project.scopes = .ok progress ∧ analysis.project.Acyclic ∧
      workspace.HoldsAll options.overlay analysis.project ∧
      analysis = Analysis.ofScopes analysis.project progress.scopes options.known := by
  unfold analyze at accepted
  split at accepted
  next => cases accepted
  next project log loaded =>
    split at accepted
    next => cases accepted
    next progress computed =>
      obtain rfl := Except.ok.inj accepted
      refine ⟨progress, computed, Project.acyclic_of_scopes computed, ?_, rfl⟩
      obtain ⟨start, -, loaded⟩ := Except.exists_of_bind loaded
      split at loaded
      next => cases loaded
      next excludes parsed =>
        have empty : workspace.HoldsAll options.overlay (Project.empty start) := by
          intro path file found
          cases found
        have holds := holdsAll_loads (scripts workspace.tree start excludes)
          ⟨Project.empty start, []⟩ empty
        rw [Except.ok.inj loaded] at holds
        exact holds

variable {project : Project}

theorem HoldsAll.defines_strictMode (holds : workspace.HoldsAll overlay project) (path : Text) :
    project.Defines path strictMode.key ↔ ∃ file, project.files.get? path = some file ∧
      ∃ usage ∈ file.usages, usage.item.kind = .function ∧
        usage.item.name.sameFold strictCommand = true := by
  constructor
  · rintro ⟨file, held, marked⟩
    obtain ⟨script, read⟩ := holds path file held
    exact ⟨file, held, read.marked_iff.mp marked⟩
  · rintro ⟨file, held, calls⟩
    obtain ⟨script, read⟩ := holds path file held
    exact ⟨file, held, read.marked_iff.mpr calls⟩

/-- What a scope gives for an item is a definition with the key of the item. -/
theorem origin_of_lookup {acyclic : project.Acyclic} {path : Text} {scope : Scope}
    (fits : project.Fits acyclic path scope) {item : Item} {origin : Origin}
    (found : scope.lookup item = some origin) :
    ∃ file, project.files.get? origin.file = some file ∧ origin.definition ∈ file.definitions ∧
      origin.definition.item.key = item.key := by
  rw [Scope.lookup, fits.find] at found
  obtain ⟨chain, own⟩ := Project.visible_origin acyclic found
  exact (Project.ownOrigin_eq_some own).2

/-- A view shows no strict mode just if nothing imports its file and no file within reach calls the
command. -/
theorem HoldsAll.noStrictMode_iff (holds : workspace.HoldsAll overlay project)
    {acyclic : project.Acyclic} {path : Text} {view : FileView}
    (shows : project.Shows acyclic path view) :
    view.findings.noStrictMode = true ↔
      (∀ other importer, project.files.get? other = some importer →
        importer.imports.contains path = false) ∧
      ∀ target reached, project.Reaches path target → project.files.get? target = some reached →
        ∀ usage ∈ reached.usages, ¬ (usage.item.kind = .function ∧
          usage.item.name.sameFold strictCommand = true) := by
  have entry : view.isEntry = true ↔ ∀ other importer,
      project.files.get? other = some importer → importer.imports.contains path = false := by
    rw [FileView.isEntry, shows.within, shows.path_eq, Bool.not_eq_true', ← Bool.not_eq_true,
      Project.isImported_iff]
    simp
  have marked : view.scope.has strictMode = true ↔ ∃ target, project.Reaches path target ∧
      project.Defines target strictMode.key := by
    rw [Scope.has, Scope.lookup, shows.scope.find]
    exact Project.isSome_visible acyclic path strictMode.key
  change (view.isEntry && !view.scope.has strictMode) = true ↔ _
  rw [Bool.and_eq_true, entry, Bool.not_eq_true', ← Bool.not_eq_true, marked]
  refine and_congr_right fun _ => ?_
  simp only [holds.defines_strictMode]
  constructor
  · intro uncalled target reached chain there usage member called
    exact uncalled ⟨target, chain, reached, there, usage, member, called⟩
  · rintro uncalled ⟨target, chain, reached, there, usage, member, called⟩
    exact uncalled target reached chain there usage member called

/-- Strict mode, for every workspace that can be analysed. A file of the project lacks it just if no
file imports it and neither it nor any file it reaches calls the command for strict mode. In no
scope does anything but the mark stand under its key, and nothing that any text defines or uses has
that key or refers to the mark. -/
theorem lacks_strictMode_iff (workspace : Workspace) (options : AnalysisOptions) (root : Text)
    (analysis : Analysis) (accepted : (workspace.analyze options root).2 = .ok analysis) :
    (∀ path file, analysis.project.files.get? path = some file →
      ∃ found, analysis.file? path = some found ∧ found.file = file ∧
        (found.noStrictMode = true ↔
          (∀ other importer, analysis.project.files.get? other = some importer →
            importer.imports.contains path = false) ∧
          ∀ target reached, analysis.project.Reaches path target →
            analysis.project.files.get? target = some reached →
            ∀ usage ∈ reached.usages, ¬ (usage.item.kind = .function ∧
              usage.item.name.sameFold strictCommand = true))) ∧
    (∀ path scope origin, analysis.scopes.get? path = some scope →
      scope.lookup strictMode = some origin → origin.definition.item = strictMode) ∧
    ∀ text script, Script.read text = .ok script →
      ∀ item ∈ script.definitions.map Definition.item ++ script.usages.map Usage.item,
        item.key ≠ strictMode.key ∧
        ∀ path scope origin, analysis.scopes.get? path = some scope →
          scope.lookup item = some origin → origin.definition.item ≠ strictMode := by
  obtain ⟨progress, computed, acyclic, holds, same⟩ := exists_of_analyze accepted
  have scopes : analysis.scopes = progress.scopes := by rw [same]; rfl
  obtain ⟨fitting, done, -, fits⟩ := Project.scopes_fit acyclic
  obtain rfl : progress = fitting := Except.ok.inj (computed.symm.trans done)
  refine ⟨?_, ?_, ?_⟩
  · intro path file held
    obtain ⟨shown, done, view, shows, -, -, found⟩ :=
      Project.exists_view acyclic options.known ((Project.has_iff path).mpr ⟨file, held⟩)
    obtain rfl : progress = shown := Except.ok.inj (computed.symm.trans done)
    have sameFile : view.file = file := Option.some.inj (shows.held.symm.trans held)
    exact ⟨view.findings, by rw [same]; exact found, sameFile, holds.noStrictMode_iff shows⟩
  · intro path scope origin stored found
    rw [scopes] at stored
    obtain ⟨file, held, listed, key⟩ := origin_of_lookup (fits path scope stored) found
    obtain ⟨script, read⟩ := holds _ file held
    exact read.eq_strictMode listed key
  · intro text script read item member
    have written : item.Written := by
      rcases List.mem_append.mp member with defined | used
      · obtain ⟨definition, listed, rfl⟩ := List.mem_map.mp defined
        exact (Script.written_of_read read).1 definition listed
      · obtain ⟨usage, listed, rfl⟩ := List.mem_map.mp used
        exact (Script.written_of_read read).2 usage listed
    refine ⟨Item.key_ne_strictMode written, ?_⟩
    intro path scope origin stored found mark
    rw [scopes] at stored
    obtain ⟨file, held, listed, key⟩ := origin_of_lookup (fits path scope stored) found
    rw [mark] at key
    exact Item.key_ne_strictMode written key.symm

/-- A script that gets strict mode from the one it imports, and one that stands alone. -/
def shop : Workspace where
  tree := [("/w/main.ps1", ". $PSScriptRoot/lib.ps1\nRun-It"),
    ("/w/lib.ps1", "set-strictMODE -Version 3"), ("/w/bare.ps1", "class Set\x7b\x7d")].foldl
      (fun tree (path, text) => tree.put (Text.ofString path) (.file (Text.ofString text))) .empty
  working := "/"

def shopOptions : AnalysisOptions := ⟨⟨.empty, .empty⟩, [], ∅⟩

theorem shop_lacks_strictMode :
    ∃ analysis, (shop.analyze shopOptions "/w").2 = .ok analysis ∧
      ∃ found, analysis.file? "/w/bare.ps1" = some found ∧ found.noStrictMode = true ∧
        ∀ target reached, analysis.project.Reaches "/w/bare.ps1" target →
          analysis.project.files.get? target = some reached →
          ∀ usage ∈ reached.usages, ¬ (usage.item.kind = .function ∧
            usage.item.name.sameFold strictCommand = true) := by
  have outcome : (shop.analyze shopOptions "/w").2.toOption.map (fun analysis =>
      (analysis.project.has "/w/bare.ps1",
        (analysis.file? "/w/bare.ps1").map FileFindings.noStrictMode)) = some (true, some true) := by
    decide +kernel
  obtain ⟨analysis, accepted, same⟩ := Except.exists_of_toOption_map outcome
  obtain ⟨known, marked⟩ := Prod.mk.inj same
  obtain ⟨file, held⟩ := (Project.has_iff _).mp known
  obtain ⟨judged, found, -, lacks⟩ :=
    (lacks_strictMode_iff shop shopOptions "/w" analysis accepted).1 _ file held
  have missing : judged.noStrictMode = true := by simpa [found] using marked
  exact ⟨analysis, accepted, judged, found, missing, (lacks.mp missing).2⟩

end Workspace

end ScopeLint
