import ScopeLint.Project.Findings
import ScopeLint.Proofs.Project.Scopes

/-!
Views of the files of an acyclic project, and the imports that are credited with a definition.
The main fact is that a definition from another file is always credited to some direct import,
and only to direct imports in which its key is visible.
-/

namespace ScopeLint

def Analysis.file? (analysis : Analysis) (path : Text) : Option FileFindings :=
  analysis.files.find? fun found => found.file.path = path

namespace FileView

theorem looksUp_iff (view : FileView) (usage : Usage) :
    view.looksUp usage = true ↔
      usage.item.kind = .classType ∨ view.known.contains usage.item.name = false := by
  simp [looksUp]

theorem origin_iff (view : FileView) (usage : Usage) (origin : Origin) :
    view.origin? usage = some origin ↔
      (usage.item.kind = .classType ∨ view.known.contains usage.item.name = false) ∧
        view.scope.lookup usage.item = some origin := by
  rw [← looksUp_iff, origin?]
  split <;> simp_all

theorem nearest_mem (view : FileView) (target : Text) (best : Option (Text × Nat))
    (paths : List Text) {path : Text} (chosen : view.nearest target best paths = some path) :
    path ∈ paths ∨ best.map Prod.fst = some path := by
  induction paths generalizing best with
  | nil => exact .inr chosen
  | cons next rest induction =>
      rcases induction _ chosen with later | kept
      · exact .inl (List.mem_cons_of_mem _ later)
      · split at kept
        next => exact .inl (by simp_all)
        next => exact .inr kept

/-- Definitions are credited to imports through which they arrive. -/
theorem creditsVia_subset (view : FileView) (via : List Text) (origin : Origin) :
    view.creditsVia via origin ⊆ via := by
  intro path member
  simp only [creditsVia] at member
  split at member
  next =>
    rcases Option.or_eq_some_iff.mp (Option.mem_toList.mp member) with near | ⟨-, first⟩
    · simpa using view.nearest_mem origin.file none via near
    · exact List.mem_of_mem_head? first
  next => exact (List.mem_filter.mp member).1

theorem creditsVia_ne_nil (view : FileView) {via : List Text} (origin : Origin) (nonempty : via ≠ []) :
    view.creditsVia via origin ≠ [] := by
  obtain ⟨first, rest, rfl⟩ := List.exists_cons_of_ne_nil nonempty
  simp only [creditsVia]
  split
  next => cases view.nearest origin.file none (first :: rest) <;> simp
  next bags => simpa using bags

end FileView

namespace Project

/-- A view that shows a file of an acyclic project together with the right scopes. -/
structure Shows (project : Project) (acyclic : project.Acyclic) (path : Text) (view : FileView) :
    Prop where
  within : view.project = project
  held : project.files.get? path = some view.file
  scope : project.Fits acyclic path view.scope
  scopes : ∀ other scope, view.scopes.get? other = some scope → project.Fits acyclic other scope
  covered : ∀ other, view.scopes.contains other = project.has other

variable {project : Project} {acyclic : project.Acyclic}

theorem file_ofScopes (scopes : Table Scope) (known : KnownCommands) {path : Text}
    {file : ProjectFile} {scope : Scope} (held : project.files.get? path = some file)
    (found : scopes.get? path = some scope) :
    (Analysis.ofScopes project scopes known).file? path =
      some (FileView.findings ⟨project, scopes, known, file, scope⟩) := by
  have listed : FileView.findings ⟨project, scopes, known, file, scope⟩ ∈
      (Analysis.ofScopes project scopes known).files := by
    refine List.mem_filterMap.mpr ⟨file, (Table.mem_values _ _).mpr ⟨path, held⟩, ?_⟩
    rw [path_of_get held, found]
    rfl
  have judged : ((Analysis.ofScopes project scopes known).file? path).isSome := by
    rw [Analysis.file?, List.find?_isSome]
    exact ⟨_, listed, decide_eq_true (path_of_get held)⟩
  obtain ⟨result, first⟩ := Option.isSome_iff_exists.mp judged
  rw [first]
  -- Only one file stands under the path, so the first result for it is the only one.
  obtain ⟨other, member, same⟩ := List.mem_filterMap.mp (List.mem_of_find?_eq_some first)
  obtain ⟨otherScope, otherFound, rfl⟩ := Option.map_eq_some_iff.mp same
  have named : other.path = path := by
    have holds := List.find?_some first
    exact of_decide_eq_true holds
  obtain ⟨key, otherHeld⟩ := (Table.mem_values _ _).mp member
  rw [← path_of_get otherHeld, named, held] at otherHeld
  obtain rfl := Option.some.inj otherHeld
  rw [named, found] at otherFound
  obtain rfl := Option.some.inj otherFound
  rfl

theorem exists_shown (acyclic : project.Acyclic) (known : KnownCommands) {path : Text}
    {file : ProjectFile} (held : project.files.get? path = some file) :
    ∃ progress scope, project.scopes = .ok progress ∧ progress.scopes.get? path = some scope ∧
      project.Shows acyclic path ⟨project, progress.scopes, known, file, scope⟩ ∧
      (Analysis.ofScopes project progress.scopes known).file? path =
        some (FileView.findings ⟨project, progress.scopes, known, file, scope⟩) := by
  obtain ⟨progress, done, covered, fits⟩ := scopes_fit acyclic
  have present : project.has path = true := (has_iff path).mpr ⟨file, held⟩
  obtain ⟨scope, found⟩ := (Table.contains_iff _ _).mp ((covered path).trans present)
  refine ⟨progress, scope, done, found, ?_, file_ofScopes progress.scopes known held found⟩
  exact ⟨rfl, held, fits path scope found, fits, covered⟩

/-- The scopes of an acyclic project are computed, and every file has a view that its findings
are read off. -/
theorem exists_view (acyclic : project.Acyclic) (known : KnownCommands) {path : Text}
    (present : project.has path = true) :
    ∃ progress, project.scopes = .ok progress ∧ ∃ view : FileView,
      project.Shows acyclic path view ∧ view.known = known ∧
      progress.scopes.get? path = some view.scope ∧
      (Analysis.ofScopes project progress.scopes known).file? path = some view.findings := by
  obtain ⟨file, held⟩ := (has_iff path).mp present
  obtain ⟨progress, scope, done, own, shows, found⟩ := exists_shown acyclic known held
  exact ⟨progress, done, _, shows, rfl, own, found⟩

namespace Shows

variable {path : Text} {view : FileView}

theorem path_eq (shows : project.Shows acyclic path view) : view.file.path = path :=
  path_of_get shows.held

theorem isDirect_iff (shows : project.Shows acyclic path view) (next : Text) :
    view.isDirect next = true ↔ project.Imports path next := by
  simp [FileView.isDirect, shows.scope.direct, Imports]

/-- The forwarders of a definition are the direct imports in which its key refers to the file
of the definition. -/
theorem mem_forwarders (shows : project.Shows acyclic path view) (key : Key) (origin : Origin)
    (next : Text) :
    next ∈ view.forwarders key origin ↔ project.Imports path next ∧
      (project.visible acyclic next key).map Origin.file = some origin.file := by
  have direct := shows.isDirect_iff next
  have listed : project.Imports path next → next ∈ view.file.importPaths := by
    intro step
    exact (Table.mem_keys _ _).mpr ((imports_iff shows.held).mp step).1
  have seen : project.Imports path next →
      ((view.scopes.get? next).bind fun scope => scope.find? key) =
        project.visible acyclic next key := by
    intro step
    obtain ⟨scope, found⟩ :=
      (Table.contains_iff _ _).mp ((shows.covered next).trans step.has_next)
    rw [found]
    exact (shows.scopes next scope found).find key
  rw [FileView.forwarders, List.mem_filter]
  constructor
  · rintro ⟨-, holds⟩
    obtain ⟨isDirect, same⟩ := Bool.and_eq_true_iff.mp holds
    have step := direct.mp isDirect
    rw [seen step] at same
    exact ⟨step, by simpa using same⟩
  · rintro ⟨step, same⟩
    refine ⟨listed step, ?_⟩
    rw [seen step, direct.mpr step, same]
    simp

/-- A key that refers to a file which is neither the viewed one nor a direct import of it arrives
through some direct import. -/
theorem forwarders_ne_nil (shows : project.Shows acyclic path view) {key : Key} {origin : Origin}
    (seen : view.scope.find? key = some origin) (foreign : origin.file ≠ path)
    (indirect : ¬ project.Imports path origin.file) : view.forwarders key origin ≠ [] := by
  rw [shows.scope.find, visible_eq] at seen
  rcases Option.or_eq_some_iff.mp seen with own | ⟨-, imported⟩
  · exact absurd (ownOrigin_eq_some own).1 foreign
  rcases Option.or_eq_some_iff.mp imported with near | ⟨-, far⟩
  · obtain ⟨next, step, own⟩ := List.exists_of_findSome?_eq_some near
    exact absurd ((ownOrigin_eq_some own).1 ▸ step) indirect
  · obtain ⟨next, step, found⟩ := List.exists_of_findSome?_eq_some far
    have forwards : next ∈ view.forwarders key origin :=
      (shows.mem_forwarders key origin next).mpr ⟨step, by rw [found]; rfl⟩
    exact List.ne_nil_of_mem forwards

/-- A definition of another file is credited to a direct import in which its key is visible. -/
theorem exists_credit (shows : project.Shows acyclic path view) {key : Key} {origin : Origin}
    (seen : view.scope.find? key = some origin) (foreign : origin.file ≠ path) :
    ∃ next ∈ view.credits key origin, project.Imports path next ∧
      (project.visible acyclic next key).isSome := by
  rw [FileView.credits, if_neg (by rwa [shows.path_eq])]
  by_cases step : project.Imports path origin.file
  · rw [if_pos ((shows.isDirect_iff _).mpr step)]
    have own := (visible_origin acyclic ((shows.scope.find key).symm.trans seen)).2
    exact ⟨origin.file, List.mem_singleton_self _, step,
      isSome_visible_of_own acyclic (Option.isSome_of_eq_some own)⟩
  · rw [if_neg fun direct => step ((shows.isDirect_iff _).mp direct)]
    have arrives := shows.forwarders_ne_nil seen foreign step
    obtain ⟨next, credited⟩ := List.exists_mem_of_ne_nil _ (view.creditsVia_ne_nil origin arrives)
    have forwards := (shows.mem_forwarders key origin next).mp
      (view.creditsVia_subset _ origin credited)
    exact ⟨next, credited, forwards.1, Option.isSome_map.symm.trans (by rw [forwards.2]; rfl)⟩

end Shows

end Project

end ScopeLint
