import ScopeLint.Proofs.Project.Assembly
import ScopeLint.Proofs.Project.Chains
import ScopeLint.Proofs.Project.Credits

/-!
Results are local. What is found in a file depends on the files within its reach and on whether
anything imports it, and on nothing else of the project: scopes are put together from the scopes of
imports, and chains are searched for along imports. So two projects that agree there have the same
scope and the same findings for the file.
-/

namespace ScopeLint

/-- Files that hold the same, under whatever name reports show. -/
structure ProjectFile.SameContents (file twin : ProjectFile) : Prop where
  source : file.source = twin.source
  imports : file.imports = twin.imports
  definitions : file.definitions = twin.definitions
  usages : file.usages = twin.usages
  testcases : file.testcases = twin.testcases

namespace FileView

variable {view other : FileView} {via : List Text} {key : Key} {origin : Origin}

structure Agree (view other : FileView) : Prop where
  known : view.known = other.known
  file : view.file = other.file
  scope : view.scope = other.scope
  scopes : ∀ next ∈ view.scope.direct, view.scopes.get? next = other.scopes.get? next
  bags : ∀ next ∈ view.scope.direct, view.isBag next = other.isBag next
  chains : ∀ source target, source = view.file.path ∨ source ∈ view.scope.direct →
    view.project.importChain source target = other.project.importChain source target
  entry : view.isEntry = other.isEntry

theorem direct_of_forwarders : view.forwarders key origin ⊆ view.scope.direct := by
  intro next forwards
  have holds := (Bool.and_eq_true_iff.mp (List.mem_filter.mp forwards).2).1
  simpa [isDirect] using holds

namespace Agree

theorem isDirect_eq (agree : view.Agree other) : view.isDirect = other.isDirect := by
  funext path
  rw [isDirect, isDirect, agree.scope]

theorem origin_eq (agree : view.Agree other) : view.origin? = other.origin? := by
  funext usage
  rw [origin?, origin?, looksUp, looksUp, agree.known, agree.scope]

theorem isAllowed_eq (agree : view.Agree other) : view.isAllowed = other.isAllowed := by
  funext lint usage
  rw [isAllowed, isAllowed, agree.file]

theorem forwarders_eq (agree : view.Agree other) (key : Key) (origin : Origin) :
    view.forwarders key origin = other.forwarders key origin := by
  rw [forwarders, forwarders, ← agree.isDirect_eq, ← agree.file]
  apply List.filter_congr
  intro next _
  by_cases direct : view.isDirect next = true
  · rw [agree.scopes next (by simpa [isDirect] using direct)]
  · simp [direct]

theorem nearest_eq (agree : view.Agree other) (target : Text) (best : Option (Text × Nat))
    (direct : via ⊆ view.scope.direct) :
    view.nearest target best via = other.nearest target best via := by
  induction via generalizing best with
  | nil => rfl
  | cons path rest induction =>
      have here := agree.chains path target (.inr (direct List.mem_cons_self))
      rw [nearest, nearest, here]
      exact induction _ fun next listed => direct (List.mem_cons_of_mem _ listed)

theorem creditsVia_eq (agree : view.Agree other) (origin : Origin)
    (direct : via ⊆ view.scope.direct) :
    view.creditsVia via origin = other.creditsVia via origin := by
  have bags : via.filter view.isBag = via.filter other.isBag := by
    apply List.filter_congr
    exact fun next listed => agree.bags next (direct listed)
  rw [creditsVia, creditsVia, bags, agree.nearest_eq origin.file none direct]

theorem credits_eq (agree : view.Agree other) : view.credits = other.credits := by
  funext key origin
  rw [credits, credits, agree.creditsVia_eq origin direct_of_forwarders, agree.forwarders_eq,
    agree.file, agree.isDirect_eq]

theorem explain_eq (agree : view.Agree other) : view.explain = other.explain := by
  funext usage origin
  have direct : view.forwarders usage.item.key origin ⊆ view.scope.direct := direct_of_forwarders
  have credited := agree.creditsVia_eq origin direct
  have bags : (view.forwarders usage.item.key origin).any view.isBag =
      (view.forwarders usage.item.key origin).any other.isBag := by
    rw [Bool.eq_iff_iff, List.any_eq_true, List.any_eq_true]
    apply exists_congr
    intro next
    apply and_congr_right
    intro listed
    rw [agree.bags next (direct listed)]
  rw [explain, explain, ← agree.forwarders_eq, ← credited, ← bags, ← agree.file]
  simp only [IndirectUse.mk.injEq, true_and, and_true]
  -- The chain starts at the first credited import, or at the file itself if there is none.
  split
  next => exact agree.chains _ _ (.inl rfl)
  next first rest same =>
    have listed : first ∈ view.scope.direct := by
      apply direct
      apply view.creditsVia_subset _ origin
      rw [same]
      exact List.mem_cons_self
    rw [agree.chains first _ (.inr listed)]

theorem findings_eq (agree : view.Agree other) : view.findings = other.findings := by
  have unknown : view.unknown = other.unknown := by
    have judged : view.isUnknown = other.isUnknown := by
      funext usage
      rw [isUnknown, isUnknown, looksUp, looksUp, agree.known, agree.scope, agree.isAllowed_eq]
    rw [FileView.unknown, FileView.unknown, judged, agree.file]
  have indirect : view.indirect = other.indirect := by
    have judged : view.isIndirect = other.isIndirect := by
      funext usage
      rw [isIndirect, isIndirect, agree.origin_eq, agree.isDirect_eq, agree.isAllowed_eq,
        agree.file]
    rw [FileView.indirect, FileView.indirect, judged, agree.file, agree.origin_eq, agree.explain_eq]
  have casing : view.casing = other.casing := by
    have judged : view.isMiscased = other.isMiscased := by
      funext usage
      rw [isMiscased, isMiscased, agree.origin_eq, agree.isAllowed_eq]
    rw [FileView.casing, FileView.casing, judged, agree.file, agree.origin_eq]
  have unused : view.unusedImports = other.unusedImports := by
    rw [unusedImports, unusedImports, usageCredits, usageCredits, strictCredits, strictCredits,
      agree.origin_eq, agree.credits_eq, agree.isDirect_eq, agree.entry, agree.scope, agree.file]
  rw [findings, findings, unknown, indirect, casing, unused, agree.entry, agree.scope, agree.file]

end Agree

end FileView

namespace Project

variable {left right : Project} {path other : Text}

/-- Projects that hold one file at a path, reach the same files from it, and find the same in each
of them. Imports that are absent in one project are then absent in the other. -/
structure SameReach (left right : Project) (path : Text) : Prop where
  file : ∃ file, left.files.get? path = some file ∧ right.files.get? path = some file
  reached : ∀ other, left.Reaches path other ↔ right.Reaches path other
  contents : ∀ other file twin, left.Reaches path other → left.files.get? other = some file →
    right.files.get? other = some twin → file.SameContents twin

theorem has_of_reaches (present : left.has path = true) (chain : left.Reaches path other) :
    left.has other = true := by
  cases chain with
  | refl => exact present
  | tail _ step => exact step.has_next

namespace SameReach

theorem exists_twin (same : left.SameReach right path) (chain : left.Reaches path other) :
    ∃ file twin, left.files.get? other = some file ∧ right.files.get? other = some twin ∧
      file.SameContents twin := by
  obtain ⟨first, inLeft, inRight⟩ := same.file
  obtain ⟨file, held⟩ := (has_iff other).mp
    (has_of_reaches ((has_iff path).mpr ⟨first, inLeft⟩) chain)
  obtain ⟨twin, heldTwin⟩ := (has_iff other).mp
    (has_of_reaches ((has_iff path).mpr ⟨first, inRight⟩) ((same.reached other).mp chain))
  exact ⟨file, twin, held, heldTwin, same.contents other file twin chain held heldTwin⟩

theorem importsOf_eq (same : left.SameReach right path) (chain : left.Reaches path other) :
    left.importsOf other = right.importsOf other := by
  obtain ⟨file, twin, held, heldTwin, alike⟩ := same.exists_twin chain
  rw [importsOf_get held, importsOf_get heldTwin, ProjectFile.importPaths, alike.imports]
  rfl

theorem has_eq (same : left.SameReach right path) (chain : left.Reaches path other) {next : Text}
    (listed : next ∈ left.importsOf other) : left.has next = right.has next := by
  rw [Bool.eq_iff_iff]
  constructor
  · intro present
    have step : left.Imports other next := List.mem_filter.mpr ⟨listed, present⟩
    obtain ⟨-, twin, -, heldTwin, -⟩ := same.exists_twin (chain.tail step)
    exact (has_iff next).mpr ⟨twin, heldTwin⟩
  · intro present
    rw [same.importsOf_eq chain] at listed
    have step : right.Imports other next := List.mem_filter.mpr ⟨listed, present⟩
    have further := (same.reached next).mpr (((same.reached other).mp chain).tail step)
    obtain ⟨file, -, held, -⟩ := same.exists_twin further
    exact (has_iff next).mpr ⟨file, held⟩

theorem sharedImports (same : left.SameReach right path) :
    SharedImports left right fun other =>
      left.Reaches path other ∨ left.has other = false ∧ right.has other = false where
  closed := by
    rintro other (chain | ⟨absent, -⟩) next listed
    · by_cases present : left.has next = true
      · exact .inl (chain.tail (List.mem_filter.mpr ⟨listed, present⟩))
      · rw [Bool.not_eq_true] at present
        exact .inr ⟨present, (same.has_eq chain listed).symm.trans present⟩
    · cases held : left.files.get? other with
      | none => simp [importsOf, held] at listed
      | some file => simp [has, Table.contains, held] at absent
  same := by
    rintro other (chain | ⟨absent, absentTwin⟩)
    · exact same.importsOf_eq chain
    · simp only [has, Table.contains, Option.isSome_eq_false_iff, Option.isNone_iff_eq_none]
        at absent absentTwin
      rw [importsOf, importsOf, absent, absentTwin]

theorem ownItems_eq (same : left.SameReach right path) (chain : left.Reaches path other) :
    (left.files.get? other).map Scope.ownItems = (right.files.get? other).map Scope.ownItems := by
  obtain ⟨file, twin, held, heldTwin, alike⟩ := same.exists_twin chain
  rw [held, heldTwin, Option.map_some, Option.map_some, Scope.ownItems, Scope.ownItems,
    alike.definitions, path_of_get held, path_of_get heldTwin]

theorem isImportBag_eq (same : left.SameReach right path) (chain : left.Reaches path other) :
    (left.files.get? other).map ProjectFile.isImportBag =
      (right.files.get? other).map ProjectFile.isImportBag := by
  obtain ⟨file, twin, held, heldTwin, alike⟩ := same.exists_twin chain
  rw [held, heldTwin, Option.map_some, Option.map_some, ProjectFile.isImportBag,
    ProjectFile.isImportBag, alike.definitions]

end SameReach

section Scopes

variable {lookup relook : Text → Option Scope}

/-- A way to look scopes up that knows all files of a project, and no others. -/
structure Solves (project : Project) (lookup : Text → Option Scope) : Prop where
  assembled : project.Assembled lookup
  covered : ∀ path, (lookup path).isSome = project.has path

theorem Solves.file_eq (solves : left.Solves lookup) {scope : Scope}
    (found : lookup other = some scope) : scope.file = other := by
  obtain ⟨file, held, -, rfl⟩ := solves.assembled other scope found
  exact path_of_get held

theorem Solves.eq_none (solves : left.Solves lookup) (absent : left.has other = false) :
    lookup other = none := by
  rw [← Option.isNone_iff_eq_none, ← Option.not_isSome, solves.covered, absent]
  rfl

/-- The scope of a file within reach, by induction along imports. -/
theorem SameReach.lookup_eq (same : left.SameReach right path) (acyclic : left.Acyclic)
    (solves : left.Solves lookup) (resolves : right.Solves relook)
    (chain : left.Reaches path other) : lookup other = relook other := by
  induction other using acyclic.wellFounded.induction with
  | _ other induction =>
      obtain ⟨file, twin, held, heldTwin, alike⟩ := same.exists_twin chain
      have known : (lookup other).isSome := by
        rw [solves.covered]
        exact (has_iff other).mpr ⟨file, held⟩
      have knownTwin : (relook other).isSome := by
        rw [resolves.covered]
        exact (has_iff other).mpr ⟨twin, heldTwin⟩
      obtain ⟨scope, found⟩ := Option.isSome_iff_exists.mp known
      obtain ⟨rescope, refound⟩ := Option.isSome_iff_exists.mp knownTwin
      obtain ⟨_, again, -, shape⟩ := solves.assembled other scope found
      obtain ⟨_, againTwin, -, shapeTwin⟩ := resolves.assembled other rescope refound
      obtain rfl := Option.some.inj (held.symm.trans again)
      obtain rfl := Option.some.inj (heldTwin.symm.trans againTwin)
      have paths : twin.importPaths = file.importPaths := by
        rw [ProjectFile.importPaths, ProjectFile.importPaths, alike.imports]
      have reach : ∀ next ∈ file.importPaths, left.has next = true →
          left.Imports other next :=
        fun next listed present => List.mem_filter.mpr ⟨importsOf_get held ▸ listed, present⟩
      have imports : file.importPaths.filterMap lookup = file.importPaths.filterMap relook := by
        apply List.filterMap_congr
        intro next listed
        by_cases present : left.has next = true
        · have step := reach next listed present
          exact induction next step (chain.tail step)
        · rw [Bool.not_eq_true] at present
          have absent := (same.has_eq chain (importsOf_get held ▸ listed)).symm.trans present
          rw [solves.eq_none present, resolves.eq_none absent]
      have near : ((file.importPaths.filterMap lookup).flatMap fun scope =>
            ((left.files.get? scope.file).map Scope.ownItems).getD []) =
          (file.importPaths.filterMap lookup).flatMap fun scope =>
            ((right.files.get? scope.file).map Scope.ownItems).getD [] := by
        apply List.flatMap_congr
        intro target listed
        obtain ⟨next, imported, seen⟩ := List.mem_filterMap.mp listed
        have present : left.has next = true := by
          rw [← solves.covered, seen]
          rfl
        rw [solves.file_eq seen, same.ownItems_eq (chain.tail (reach next imported present))]
      have own : Scope.ownItems file = Scope.ownItems twin := by
        have both := same.ownItems_eq chain
        rw [held, heldTwin] at both
        exact Option.some.inj both
      rw [found, refound, shape, shapeTwin, Scope.assemble, Scope.assemble, paths, ← imports, near,
        own, path_of_get held, path_of_get heldTwin]

end Scopes

theorem exists_solution (acyclic : left.Acyclic) :
    ∃ progress, left.scopes = .ok progress ∧ left.Solves progress.scopes.get? ∧
      ∀ path scope, progress.scopes.get? path = some scope → left.Fits acyclic path scope := by
  obtain ⟨progress, computed, covered, fits⟩ := scopes_fit acyclic
  exact ⟨progress, computed, ⟨assembled_scopes acyclic computed, covered⟩, fits⟩

/-- Results are local. Two projects without cycles that hold the same file, the same files within
its reach and agree on whether anything imports it have the same scope and the same findings for
it, whatever else is in them. -/
theorem findings_local (left right : Project) (path : Text) (known : KnownCommands)
    (acyclic : left.Acyclic) (reacyclic : right.Acyclic) (same : left.SameReach right path)
    (imported : left.isImported path = right.isImported path) :
    ∃ progress reprogress, left.scopes = .ok progress ∧ right.scopes = .ok reprogress ∧
      (∃ scope, progress.scopes.get? path = some scope ∧
        reprogress.scopes.get? path = some scope) ∧
      ∃ found, (Analysis.ofScopes left progress.scopes known).file? path = some found ∧
        (Analysis.ofScopes right reprogress.scopes known).file? path = some found := by
  obtain ⟨progress, computed, solves, fits⟩ := exists_solution acyclic
  obtain ⟨reprogress, recomputed, resolves, -⟩ := exists_solution reacyclic
  obtain ⟨file, held, reheld⟩ := same.file
  have there : (progress.scopes.get? path).isSome := by
    rw [solves.covered]
    exact (has_iff path).mpr ⟨file, held⟩
  obtain ⟨scope, found⟩ := Option.isSome_iff_exists.mp there
  have refound := (same.lookup_eq acyclic solves resolves .refl).symm.trans found
  have direct : ∀ next ∈ scope.direct, left.Reaches path next := by
    intro next listed
    rw [(fits path scope found).direct] at listed
    exact .single listed
  have agree : FileView.Agree ⟨left, progress.scopes, known, file, scope⟩
      ⟨right, reprogress.scopes, known, file, scope⟩ :=
    { known := rfl
      file := rfl
      scope := rfl
      scopes := fun next listed => same.lookup_eq acyclic solves resolves (direct next listed)
      bags := fun next listed => by
        rw [FileView.isBag, FileView.isBag, same.isImportBag_eq (direct next listed)]
      chains := by
        rintro source target (rfl | listed)
        · apply importChain_congr same.sharedImports
          rw [path_of_get held]
          exact .inl .refl
        · exact importChain_congr same.sharedImports (.inl (direct source listed)) target
      entry := by
        rw [FileView.isEntry, FileView.isEntry, path_of_get held, imported] }
  refine ⟨progress, reprogress, computed, recomputed, ⟨scope, found, refound⟩, _,
    file_ofScopes progress.scopes known held found, ?_⟩
  rw [agree.findings_eq]
  exact file_ofScopes reprogress.scopes known reheld refound

section Region

variable {region : List Text} (start : path ∈ region)
  (closed : ∀ other ∈ region, ∀ next ∈ left.presentImports other, next ∈ region)
  (imports : ∀ other ∈ region, left.presentImports other = right.presentImports other)

include start closed imports

theorem reaches_of_region (chain : left.Reaches path other) :
    other ∈ region ∧ right.Reaches path other := by
  induction chain with
  | refl => exact ⟨start, .refl⟩
  | @tail middle next _ step induction =>
      have restep : right.Imports middle next := by
        rw [Imports, ← imports middle induction.1]
        exact step
      exact ⟨closed middle induction.1 next step, induction.2.tail restep⟩

/-- Files that lead only to one another, and are the same with the same imports in two projects,
can be listed and compared. -/
theorem sameReach_of_region (held : ∀ other ∈ region, ∃ file,
    left.files.get? other = some file ∧ right.files.get? other = some file) :
    left.SameReach right path := by
  have closedRight : ∀ other ∈ region, ∀ next ∈ right.presentImports other, next ∈ region := by
    intro other listed
    rw [← imports other listed]
    exact closed other listed
  have importsRight : ∀ other ∈ region,
      right.presentImports other = left.presentImports other :=
    fun other listed => (imports other listed).symm
  refine ⟨held path start, fun other => ⟨?_, ?_⟩, ?_⟩
  · exact fun chain => (reaches_of_region start closed imports chain).2
  · exact fun chain => (reaches_of_region start closedRight importsRight chain).2
  · intro other file twin chain inLeft inRight
    obtain ⟨both, heldLeft, heldRight⟩ := held other (reaches_of_region start closed imports chain).1
    obtain rfl := Option.some.inj (heldLeft.symm.trans inLeft)
    obtain rfl := Option.some.inj (heldRight.symm.trans inRight)
    exact ⟨rfl, rfl, rfl, rfl, rfl⟩

end Region

/-- A file that gets a command through another one and has an import that leads nowhere, among
other files. -/
def station (others : List ProjectFile) : Project :=
  (others ++
    [{ sketch "main" ["gone", "tools"] ["Run"] with usages := [⟨⟨"HELP", .function⟩, .zero⟩] },
      sketch "tools" ["base"] ["wrap"], sketch "base" [] ["help"]]).foldl
    Project.put (Project.empty [])

def bystander : ProjectFile := sketch "aside" ["base", "tools"] ["Help"]

def stationRank (path : Text) : Nat :=
  if path = Text.ofString "base" then 0 else if path = Text.ofString "tools" then 1 else 2

theorem station_sameReach : (station []).SameReach (station [bystander]) "main" := by
  have region : ∀ other ∈ ["main", "tools", "base"].map Text.ofString, ∃ file,
      (station []).files.get? other = some file ∧
        (station [bystander]).files.get? other = some file := by
    intro other listed
    simp only [List.map_cons, List.map_nil, List.mem_cons, List.not_mem_nil, or_false] at listed
    rcases listed with rfl | rfl | rfl <;> exact ⟨_, rfl, rfl⟩
  exact sameReach_of_region (by decide) (by decide +kernel) (by decide +kernel) region

theorem station_findings_local :
    ∃ progress reprogress, (station []).scopes = .ok progress ∧
      (station [bystander]).scopes = .ok reprogress ∧
      (∃ scope, progress.scopes.get? "main" = some scope ∧
        reprogress.scopes.get? "main" = some scope) ∧
      ∃ found, (Analysis.ofScopes (station []) progress.scopes ⟨.empty, .empty⟩).file? "main" =
          some found ∧
        (Analysis.ofScopes (station [bystander]) reprogress.scopes ⟨.empty, .empty⟩).file? "main" =
          some found :=
  findings_local (station []) (station [bystander]) "main" ⟨.empty, .empty⟩
    (acyclic_of_rank stationRank (by decide +kernel))
    (acyclic_of_rank stationRank (by decide +kernel)) station_sameReach (by decide +kernel)

end Project

end ScopeLint
