import ScopeLint.Proofs.Project.Credits
import ScopeLint.Proofs.Project.Reimport

/-!
Importing the file that an indirect usage gets its definition from. The file was within reach
before, so no cycle arises and nothing new becomes visible; and no file that comes earlier in the
order of a lookup defines the name, so it keeps its meaning and is no longer indirect.
-/

namespace ScopeLint

theorem Usage.mem_of_mem_firsts {usage : Usage} {usages : List Usage} {seen : List Key}
    (member : usage ∈ Usage.firsts seen usages) : usage ∈ usages := by
  induction usages generalizing seen with
  | nil => simp [firsts] at member
  | cons first rest induction =>
      rw [firsts] at member
      split at member
      next => exact List.mem_cons_of_mem _ (induction member)
      next =>
        rcases List.mem_cons.mp member with rfl | later
        · exact List.mem_cons_self
        · exact List.mem_cons_of_mem _ (induction later)

theorem Scope.mem_keys_iff (scope : Scope) (key : Key) :
    key ∈ scope.items.map Prod.fst ↔ (scope.find? key).isSome := by
  rw [find?, Option.isSome_map, List.find?_isSome]
  simp

namespace FileView

theorem lookup_of_origin {view : FileView} {usage : Usage} {origin : Origin}
    (found : view.origin? usage = some origin) : view.scope.lookup usage.item = some origin := by
  rw [origin?] at found
  split at found
  next => exact found
  next => cases found

/-- A reported use refers to a file that is neither the viewed one nor imported by it. -/
theorem lookup_of_indirect {view : FileView} {use : IndirectUse} (reported : use ∈ view.indirect) :
    view.scope.lookup use.usage.item = some use.origin ∧ use.origin.file ≠ view.file.path ∧
      view.isDirect use.origin.file = false := by
  obtain ⟨usage, listed, explained⟩ := List.mem_filterMap.mp reported
  obtain ⟨origin, found, rfl⟩ := Option.map_eq_some_iff.mp explained
  have indirect := (List.mem_filter.mp (Usage.mem_of_mem_firsts listed)).2
  simp only [isIndirect, found, Option.any_some, Bool.and_eq_true, decide_eq_true_eq,
    Bool.not_eq_true'] at indirect
  exact ⟨lookup_of_origin found, indirect.1.1, indirect.1.2⟩

end FileView

namespace Project

variable {project : Project} {acyclic : project.Acyclic} {path target : Text}

def addImport (project : Project) (path target : Text) (line : Import) : Project :=
  project.changeImports path fun imports => imports.insert target line

theorem imports_addImport {file : ProjectFile} (held : project.files.get? path = some file)
    (present : project.has target = true) (line : Import) (source next : Text) :
    (project.addImport path target line).Imports source next ↔
      project.Imports source next ∨ source = path ∧ next = target := by
  by_cases same : source = path
  · subst same
    rw [Imports, addImport, presentImports_changeImports_self held, imports_iff held]
    simp only [List.mem_filter, Table.mem_keys, Table.contains, Table.get_insert]
    by_cases new : next = target
    · simp [new, present]
    · simp [new]
  · rw [Imports, addImport, presentImports_changeImports_of_ne held _ same]
    simp [Imports, same]

section Shortcut

variable {file : ProjectFile} (held : project.files.get? path = some file)
  (chain : Relation.TransGen project.Imports path target) (line : Import)

include held chain

theorem transGen_of_addImport {source next : Text}
    (step : (project.addImport path target line).Imports source next) :
    Relation.TransGen project.Imports source next := by
  obtain ⟨last, -, final⟩ := Relation.TransGen.tail'_iff.mp chain
  rcases (imports_addImport held final.has_next line source next).mp step with old | ⟨rfl, rfl⟩
  · exact .single old
  · exact chain

/-- An import of a file that is already within reach closes no cycle. -/
theorem Acyclic.addImport (acyclic : project.Acyclic) :
    (project.addImport path target line).Acyclic := by
  intro start loop
  have old : Relation.TransGen project.Imports start start :=
    Relation.TransGen.lift' id (fun _ _ step => transGen_of_addImport held chain line step) _ _ loop
  exact acyclic start old

theorem reaches_addImport (source next : Text) :
    (project.addImport path target line).Reaches source next ↔ project.Reaches source next := by
  obtain ⟨last, -, final⟩ := Relation.TransGen.tail'_iff.mp chain
  constructor
  · intro reaches
    induction reaches with
    | refl => exact .refl
    | tail _ step induction =>
        exact induction.trans (transGen_of_addImport held chain line step).to_reflTransGen
  · intro reaches
    refine Relation.ReflTransGen.mono (fun importer onto step => ?_) _ _ reaches
    exact (imports_addImport held final.has_next line importer onto).mpr (.inl step)

end Shortcut

/-- The definition that a key refers to does not change when its file is imported directly: no
other import defines the key itself, or the key would refer to that import. -/
theorem visible_addImport {file : ProjectFile} (held : project.files.get? path = some file)
    {key : Key} {origin : Origin} (seen : project.visible acyclic path key = some origin)
    (foreign : origin.file ≠ path) (indirect : ¬ project.Imports path origin.file) (line : Import)
    (grown : (project.addImport path origin.file line).Acyclic) :
    (project.addImport path origin.file line).visible grown path key = some origin := by
  obtain ⟨-, own⟩ := visible_origin acyclic seen
  obtain ⟨-, target, heldTarget, -⟩ := ownOrigin_eq_some own
  have present : project.has origin.file = true := (has_iff _).mpr ⟨target, heldTarget⟩
  rw [visible_eq] at seen ⊢
  simp only [addImport, ownOrigin_changeImports held]
  rcases Option.or_eq_some_iff.mp seen with atHome | ⟨noneOwn, imported⟩
  · exact absurd (ownOrigin_eq_some atHome).1 foreign
  rcases Option.or_eq_some_iff.mp imported with near | ⟨noneNear, -⟩
  · obtain ⟨next, step, found⟩ := List.exists_of_findSome?_eq_some near
    exact absurd ((ownOrigin_eq_some found).1 ▸ step) indirect
  have listed : (project.addImport path origin.file line).Imports path origin.file :=
    (imports_addImport held present line path origin.file).mpr (.inr ⟨rfl, rfl⟩)
  -- Among the imports only the new one defines the key, whatever its place in the order.
  have near : ((project.addImport path origin.file line).presentImports path).findSome?
      (fun next => project.ownOrigin? next key) = some origin := by
    cases outcome : ((project.addImport path origin.file line).presentImports path).findSome?
        fun next => project.ownOrigin? next key with
    | none =>
        have never := List.findSome?_eq_none_iff.mp outcome origin.file listed
        rw [own] at never
        cases never
    | some found =>
        obtain ⟨next, step, defined⟩ := List.exists_of_findSome?_eq_some outcome
        rcases (imports_addImport held present line path next).mp step with old | ⟨-, rfl⟩
        · have never := List.findSome?_eq_none_iff.mp noneNear next old
          rw [defined] at never
          cases never
        · rw [← defined, own]
  rw [noneOwn, Option.none_or]
  exact Option.or_eq_some_iff.mpr (.inl near)

/-- Importing what an indirect use refers to. The project stays acyclic and the file sees the same
keys; the used name refers to the same definition, whose file is now imported directly, and no
usage of the name is reported as indirect any more. -/
theorem indirect_use_importable (project : Project) (acyclic : project.Acyclic)
    (known : KnownCommands) (path : Text) (present : project.has path = true) :
    ∃ progress scope found, project.scopes = .ok progress ∧
      progress.scopes.get? path = some scope ∧
      (Analysis.ofScopes project progress.scopes known).file? path = some found ∧
      ∀ use ∈ found.indirect, ∀ line : Import,
        (project.addImport path use.origin.file line).Acyclic ∧
        ∃ after scopeNow foundNow,
          (project.addImport path use.origin.file line).scopes = .ok after ∧
          after.scopes.get? path = some scopeNow ∧
          (Analysis.ofScopes (project.addImport path use.origin.file line) after.scopes known).file?
            path = some foundNow ∧
          (∀ key, key ∈ scopeNow.items.map Prod.fst ↔ key ∈ scope.items.map Prod.fst) ∧
          scopeNow.lookup use.usage.item = some use.origin ∧
          use.origin.file ∈ scopeNow.direct ∧
          ∀ other ∈ foundNow.indirect, other.usage.item.key ≠ use.usage.item.key := by
  obtain ⟨progress, done, view, shows, rfl, own, found⟩ := exists_view acyclic known present
  refine ⟨progress, view.scope, view.findings, done, own, found, fun use reported line => ?_⟩
  obtain ⟨refers, foreign, apart⟩ := FileView.lookup_of_indirect reported
  rw [shows.path_eq] at foreign
  have indirect : ¬ project.Imports path use.origin.file := by
    intro step
    rw [(shows.isDirect_iff _).mpr step] at apart
    cases apart
  have seen : project.visible acyclic path use.usage.item.key = some use.origin :=
    (shows.scope.find _).symm.trans refers
  have chain : Relation.TransGen project.Imports path use.origin.file := by
    rcases Relation.reflTransGen_iff_eq_or_transGen.mp (visible_origin acyclic seen).1 with
      same | chain
    · exact absurd same foreign
    · exact chain
  have grown := acyclic.addImport shows.held chain line
  have presentNow : (project.addImport path use.origin.file line).has path = true := by
    rw [addImport, has_changeImports shows.held, present]
  obtain ⟨after, doneNow, now, showsNow, -, ownNow, foundNow⟩ :=
    exists_view grown view.known presentNow
  have refersNow : now.scope.lookup use.usage.item = some use.origin :=
    (showsNow.scope.find _).trans
      (visible_addImport shows.held seen foreign indirect line grown)
  obtain ⟨last, -, final⟩ := Relation.TransGen.tail'_iff.mp chain
  have step : (project.addImport path use.origin.file line).Imports path use.origin.file :=
    (imports_addImport shows.held final.has_next line path _).mpr (.inr ⟨rfl, rfl⟩)
  refine ⟨grown, after, now.scope, now.findings, doneNow, ownNow, foundNow, ?_, refersNow, ?_, ?_⟩
  · intro key
    rw [Scope.mem_keys_iff, Scope.mem_keys_iff, shows.scope.find, showsNow.scope.find,
      isSome_visible, isSome_visible]
    exact exists_congr fun source => and_congr (reaches_addImport shows.held chain line path source)
      (defines_changeImports shows.held _ source key)
  · rw [showsNow.scope.direct]
    exact step
  · intro other reportedNow same
    obtain ⟨refersOther, -, apartNow⟩ := FileView.lookup_of_indirect reportedNow
    rw [Scope.lookup, same] at refersOther
    have origin : other.origin = use.origin := Option.some.inj (refersOther.symm.trans refersNow)
    rw [origin, (showsNow.isDirect_iff _).mpr step] at apartNow
    cases apartNow

/-- A file that uses a command of an import's import, while another import leads there too. -/
def detour : Project :=
  [{ sketch "main" ["tools", "zoo"] ["Run"] with usages := [⟨⟨"HELP", .function⟩, .zero⟩] },
    sketch "tools" ["base"] ["wrap"], sketch "zoo" ["base"] ["feed"],
    sketch "base" [] ["help", "Help"]].foldl Project.put (Project.empty [])

theorem detour_acyclic : detour.Acyclic :=
  acyclic_of_rank (fun path => if path = Text.ofString "main" then 2
    else if path = Text.ofString "base" then 0 else 1) (by decide +kernel)

def detourOrigins : Option (List Text) :=
  match detour.scopes with
  | .ok progress =>
      ((Analysis.ofScopes detour progress.scopes ⟨.empty, .empty⟩).file? "main").map fun found =>
        found.indirect.map fun use => use.origin.file
  | .error _ => none

theorem detour_indirect_use_importable :
    detourOrigins = some [Text.ofString "base"] ∧
      ∃ progress scope found, detour.scopes = .ok progress ∧
        progress.scopes.get? "main" = some scope ∧
        (Analysis.ofScopes detour progress.scopes ⟨.empty, .empty⟩).file? "main" = some found ∧
        ∀ use ∈ found.indirect, ∀ line : Import,
          (detour.addImport "main" use.origin.file line).Acyclic ∧
          ∃ after scopeNow, (detour.addImport "main" use.origin.file line).scopes = .ok after ∧
            after.scopes.get? "main" = some scopeNow ∧
            scopeNow.lookup use.usage.item = some use.origin := by
  refine ⟨by decide +kernel, ?_⟩
  obtain ⟨progress, scope, found, done, own, judged, each⟩ :=
    indirect_use_importable detour detour_acyclic ⟨.empty, .empty⟩ "main" (by decide +kernel)
  refine ⟨progress, scope, found, done, own, judged, fun use reported line => ?_⟩
  obtain ⟨grown, after, scopeNow, -, doneNow, ownNow, -, -, refers, -⟩ := each use reported line
  exact ⟨grown, after, scopeNow, doneNow, ownNow, refers⟩

end Project

end ScopeLint
