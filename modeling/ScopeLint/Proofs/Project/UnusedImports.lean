import ScopeLint.Proofs.Project.Credits
import ScopeLint.Proofs.Project.Reimport

/-!
Taking out the imports that are reported as unused is safe, also when all of them are taken out
at once. Every name that the file looks up was credited to some import through which it is
visible; that import stays, and its own scope cannot change, because it does not lead back to the
file. What a name refers to may change, but not whether it refers to something.
-/

namespace ScopeLint

namespace FileView

theorem not_unused_of_credited (view : FileView) {path : Text}
    (credited : path ∈ view.usageCredits ++ view.strictCredits) :
    path ∉ view.unusedImports.map UnusedImport.path := by
  intro unused
  simp only [unusedImports] at unused
  split at unused
  next => simp at unused
  next =>
    obtain ⟨entry, reported, rfl⟩ := List.mem_map.mp unused
    obtain ⟨binding, member, rfl⟩ := List.mem_map.mp reported
    have uncredited := (Bool.and_eq_true_iff.mp (List.mem_filter.mp member).2).2
    simp only [Bool.not_eq_true', List.elem_eq_mem, decide_eq_false_iff_not] at uncredited
    exact uncredited credited

theorem credited_of_usage (view : FileView) {usage : Usage} (member : usage ∈ view.file.usages)
    (looked : view.looksUp usage = true) {origin : Origin}
    (seen : view.scope.lookup usage.item = some origin) {path : Text}
    (credited : path ∈ view.credits usage.item.key origin) : path ∈ view.usageCredits := by
  refine List.mem_flatMap.mpr ⟨usage, member, ?_⟩
  rwa [origin?, if_pos looked, seen]

theorem credited_of_strict (view : FileView) (entry : view.isEntry = true) {origin : Origin}
    (seen : view.scope.lookup strictMode = some origin) {path : Text}
    (credited : path ∈ view.credits strictMode.key origin) : path ∈ view.strictCredits := by
  rwa [strictCredits, if_pos entry, seen]

end FileView

namespace Project

variable {project : Project} {acyclic : project.Acyclic} {path : Text}

def dropImports (project : Project) (path : Text) (dropped : List Text) : Project :=
  project.changeImports path fun imports => imports.without dropped

theorem imports_dropImports {file : ProjectFile} (held : project.files.get? path = some file)
    (dropped : List Text) (source next : Text) :
    (project.dropImports path dropped).Imports source next ↔
      project.Imports source next ∧ (source = path → next ∉ dropped) := by
  by_cases same : source = path
  · subst same
    rw [Imports, dropImports, presentImports_changeImports_self held, imports_iff held]
    simp only [Table.keys_without, List.mem_filter, Table.mem_keys, List.elem_eq_mem,
      Bool.not_eq_true', decide_eq_false_iff_not]
    tauto
  · rw [Imports, dropImports, presentImports_changeImports_of_ne held _ same]
    simp [Imports, same]

theorem Acyclic.dropImports (acyclic : project.Acyclic) {file : ProjectFile}
    (held : project.files.get? path = some file) (dropped : List Text) :
    (project.dropImports path dropped).Acyclic :=
  acyclic.mono fun source next step => ((imports_dropImports held dropped source next).mp step).1

section Drop

variable {view : FileView} (shows : project.Shows acyclic path view) {dropped : List Text}
  (pruned : (project.dropImports path dropped).Acyclic)

include shows

/-- A key that is credited to imports which stay is still visible. -/
theorem Shows.isSome_visible_dropImports {key : Key} {origin : Origin}
    (seen : view.scope.find? key = some origin)
    (stay : ∀ next ∈ view.credits key origin, next ∉ dropped) :
    ((project.dropImports path dropped).visible pruned path key).isSome := by
  by_cases own : origin.file = path
  · have first := (visible_origin acyclic ((shows.scope.find key).symm.trans seen)).2
    rw [own] at first
    apply isSome_visible_of_own
    rw [Project.dropImports, ownOrigin_changeImports shows.held, first]
    rfl
  · obtain ⟨next, credited, step, provided⟩ := shows.exists_credit seen own
    have stays : (project.dropImports path dropped).Imports path next :=
      (imports_dropImports shows.held dropped path next).mpr ⟨step, fun _ => stay next credited⟩
    apply isSome_visible_of_import pruned stays
    have unchanged : (project.dropImports path dropped).visible pruned next key =
        project.visible acyclic next key :=
      visible_changeImports shows.held _ acyclic pruned (acyclic.not_reaches_of_imports step) key
    rwa [unchanged]

/-- Taking imports out makes nothing visible. -/
theorem Shows.isSome_visible_of_dropImports {key : Key}
    (seen : ((project.dropImports path dropped).visible pruned path key).isSome) :
    (project.visible acyclic path key).isSome := by
  rw [isSome_visible] at seen ⊢
  obtain ⟨source, chain, defines⟩ := seen
  refine ⟨source, ?_, (defines_changeImports shows.held _ source key).mp defines⟩
  exact Relation.ReflTransGen.mono
    (fun importer next step => ((imports_dropImports shows.held dropped importer next).mp step).1) _ _ chain

end Drop

section Safety

variable {view now : FileView} (shows : project.Shows acyclic path view)
  {pruned : (project.dropImports path (view.unusedImports.map UnusedImport.path)).Acyclic}
  (showsNow : (project.dropImports path (view.unusedImports.map UnusedImport.path)).Shows
    pruned path now)

include shows showsNow

theorem Shows.isSome_find_of_credited {key : Key} (seen : (view.scope.find? key).isSome)
    (credited : ∀ origin, view.scope.find? key = some origin →
      view.credits key origin ⊆ view.usageCredits ++ view.strictCredits) :
    (now.scope.find? key).isSome := by
  obtain ⟨origin, found⟩ := Option.isSome_iff_exists.mp seen
  rw [showsNow.scope.find]
  apply shows.isSome_visible_dropImports pruned found
  intro next member
  exact view.not_unused_of_credited (credited origin found member)

theorem Shows.isSome_find_of_now {key : Key} (seen : (now.scope.find? key).isSome) :
    (view.scope.find? key).isSome := by
  rw [showsNow.scope.find] at seen
  rw [shows.scope.find]
  exact shows.isSome_visible_of_dropImports pruned seen

/-- A usage that is looked up refers to something exactly when it did before. -/
theorem Shows.has_usage {usage : Usage} (member : usage ∈ view.file.usages)
    (looked : view.looksUp usage = true) : now.scope.has usage.item = view.scope.has usage.item := by
  rw [Bool.eq_iff_iff]
  constructor
  · exact shows.isSome_find_of_now showsNow
  · intro seen
    apply shows.isSome_find_of_credited showsNow seen
    intro origin found next credited
    exact List.mem_append_left _ (view.credited_of_usage member looked found credited)

theorem Shows.file_now : now.file = { view.file with
    imports := view.file.imports.without (view.unusedImports.map UnusedImport.path) } := by
  have held := showsNow.held
  rw [dropImports, get_changeImports shows.held, if_pos rfl] at held
  exact (Option.some.inj held).symm

theorem Shows.isEntry_now : now.isEntry = view.isEntry := by
  have same := isImported_changeImports acyclic shows.held _ pruned
  rw [FileView.isEntry, FileView.isEntry, shows.path_eq, showsNow.path_eq, shows.within,
    showsNow.within, ← same]
  rfl

theorem Shows.noStrictMode_now : now.findings.noStrictMode = view.findings.noStrictMode := by
  simp only [FileView.findings, shows.isEntry_now showsNow]
  cases entry : view.isEntry with
  | false => rfl
  | true =>
      have same : now.scope.has strictMode = view.scope.has strictMode := by
        rw [Bool.eq_iff_iff]
        constructor
        · exact shows.isSome_find_of_now showsNow
        · intro seen
          apply shows.isSome_find_of_credited showsNow seen
          intro origin found next credited
          exact List.mem_append_right _ (view.credited_of_strict entry found credited)
      rw [same]

theorem Shows.unknown_now (known : now.known = view.known) :
    now.findings.unknown = view.findings.unknown := by
  have file := shows.file_now showsNow
  have agree : ∀ usage ∈ view.file.usages, now.isUnknown usage = view.isUnknown usage := by
    intro usage member
    have looks : now.looksUp usage = view.looksUp usage := by
      rw [FileView.looksUp, FileView.looksUp, known]
    have allowed : now.isAllowed .unknownFunctions usage =
        view.isAllowed .unknownFunctions usage := by
      rw [FileView.isAllowed, FileView.isAllowed, file]
    cases looked : view.looksUp usage with
    | false => simp [FileView.isUnknown, looks, looked]
    | true =>
        have same : (now.scope.lookup usage.item).isNone = (view.scope.lookup usage.item).isNone := by
          have has := shows.has_usage showsNow member looked
          rw [← Option.not_isSome, ← Option.not_isSome]
          exact congrArg not has
        simp only [FileView.isUnknown, looks, looked, same, allowed]
  have usages : now.file.usages = view.file.usages := by rw [file]
  simp only [FileView.findings, FileView.unknown, usages, List.filter_congr agree]

end Safety

/-- Taking out all imports of a file that are reported as unused. The scopes can still be
computed, every usage that is looked up and referred to something still does, and the file has
the same unknown commands and the same verdict on strict mode. -/
theorem unused_imports_removable (project : Project) (acyclic : project.Acyclic)
    (known : KnownCommands) (path : Text) (present : project.has path = true) :
    ∃ progress scope found, project.scopes = .ok progress ∧
      progress.scopes.get? path = some scope ∧
      (Analysis.ofScopes project progress.scopes known).file? path = some found ∧
      ∃ after scopeNow foundNow,
        (project.dropImports path (found.unusedImports.map UnusedImport.path)).scopes = .ok after ∧
        after.scopes.get? path = some scopeNow ∧
        (Analysis.ofScopes (project.dropImports path (found.unusedImports.map UnusedImport.path))
          after.scopes known).file? path = some foundNow ∧
        (∀ usage ∈ found.file.usages,
          usage.item.kind = .classType ∨ known.contains usage.item.name = false →
          scope.has usage.item = true → scopeNow.has usage.item = true) ∧
        foundNow.unknown = found.unknown ∧ foundNow.noStrictMode = found.noStrictMode := by
  obtain ⟨progress, done, view, shows, rfl, own, found⟩ := exists_view acyclic known present
  have pruned := acyclic.dropImports shows.held (view.unusedImports.map UnusedImport.path)
  have presentNow : (project.dropImports path (view.unusedImports.map UnusedImport.path)).has path =
      true := by
    rw [dropImports, has_changeImports shows.held, present]
  obtain ⟨after, doneNow, now, showsNow, known, ownNow, foundNow⟩ :=
    exists_view pruned view.known presentNow
  refine ⟨progress, view.scope, view.findings, done, own, found, after, now.scope, now.findings,
    doneNow, ownNow, foundNow, ?_, shows.unknown_now showsNow known, shows.noStrictMode_now showsNow⟩
  intro usage member looked seen
  have looks : view.looksUp usage = true := by
    rcases looked with isClass | unknown
    · simp [FileView.looksUp, isClass]
    · simp [FileView.looksUp, unknown]
  rwa [shows.has_usage showsNow member looks]

/-- A file that uses a command of an import's import, and has an import it does not need. -/
def errand : Project :=
  [{ sketch "main" ["idle", "tools"] ["Run"] with usages := [⟨⟨"HELP", .function⟩, .zero⟩] },
    sketch "idle" [] ["nap"], sketch "tools" ["base"] ["wrap"], sketch "base" [] ["help"]].foldl
    Project.put (Project.empty [])

theorem errand_acyclic : errand.Acyclic :=
  acyclic_of_rank (fun path => if path = Text.ofString "main" then 2
    else if path = Text.ofString "tools" then 1 else 0) (by decide +kernel)

theorem errand_unused_imports_removable :
    ∃ progress found, errand.scopes = .ok progress ∧
      (Analysis.ofScopes errand progress.scopes ⟨.empty, .empty⟩).file? "main" = some found ∧
      ∃ after foundNow,
        (errand.dropImports "main" (found.unusedImports.map UnusedImport.path)).scopes = .ok after ∧
        (Analysis.ofScopes (errand.dropImports "main" (found.unusedImports.map UnusedImport.path))
          after.scopes ⟨.empty, .empty⟩).file? "main" = some foundNow ∧
        foundNow.unknown = found.unknown ∧ foundNow.noStrictMode = found.noStrictMode := by
  obtain ⟨progress, -, found, done, -, judged, after, -, foundNow, doneNow, -, judgedNow, -, same⟩ :=
    unused_imports_removable errand errand_acyclic ⟨.empty, .empty⟩ "main" (by decide +kernel)
  exact ⟨progress, found, done, judged, after, foundNow, doneNow, judgedNow, same⟩

end Project

end ScopeLint
