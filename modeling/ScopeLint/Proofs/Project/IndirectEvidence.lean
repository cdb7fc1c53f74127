import ScopeLint.Proofs.Project.CreditRule
import ScopeLint.Proofs.Project.IndirectImports

/-!
The evidence of an indirect use. A report names the direct imports through which the definition is
visible, those that are credited, a chain of imports and what to import instead. All of this is
there and is right: the definition is visible through some direct import, because a key reaches a
file only through an import that shows the same definition, and a chain leads from there on.
-/

namespace ScopeLint

namespace FileView

theorem explain_of_indirect {view : FileView} {use : IndirectUse} (reported : use ∈ view.indirect) :
    use = view.explain use.usage use.origin := by
  obtain ⟨usage, -, explained⟩ := List.mem_filterMap.mp reported
  obtain ⟨origin, -, rfl⟩ := Option.map_eq_some_iff.mp explained
  rfl

end FileView

namespace Project

variable {project : Project} {acyclic : project.Acyclic} {path : Text} {view : FileView}
  {usage : Usage} {origin : Origin}

/-- What a report of an indirect use in a file with the given scope has to say. -/
structure Evident (project : Project) (scopes : Table Scope) (scope : Scope) (path : Text)
    (use : IndirectUse) : Prop where
  refers : scope.lookup use.usage.item = some use.origin
  arrives : use.via ≠ []
  forwards : ∀ next ∈ use.via, next ∈ scope.direct ∧ ∃ far origin, scopes.get? next = some far ∧
    far.lookup use.usage.item = some origin ∧ origin.file = use.origin.file
  credited : use.credited ≠ []
  within : use.credited ⊆ use.via
  /-- Nothing is suggested just if bags are credited, and otherwise the file of the definition. -/
  bags : use.suggestion = none ↔ ∀ next ∈ use.credited, project.IsBag next
  suggestion : ∀ suggested, use.suggestion = some suggested → suggested = use.origin.file
  /-- The chain goes through the first credited import. -/
  second : ∃ first rest, use.credited.head? = some first ∧ use.chain = path :: first :: rest
  chained : project.Chain path use.origin.file use.chain
  /-- Where no bag is involved, no chain through an import that shows the definition is shorter. -/
  shortest : (∀ next ∈ use.via, ¬ project.IsBag next) → ∀ next ∈ use.via, ∀ rest,
    project.Chain path use.origin.file (path :: next :: rest) →
      use.chain.length ≤ (path :: next :: rest).length

namespace Shows

theorem chain_explain (shows : project.Shows acyclic path view) (named : project.Named)
    {first : Text} {others : List Text}
    (credits : view.creditsVia (view.forwarders usage.item.key origin) origin = first :: others) :
    (view.explain usage origin).chain = path :: project.importChain first origin.file ∧
      project.Chain path origin.file (view.explain usage origin).chain ∧
      ∃ rest, (view.explain usage origin).chain = path :: first :: rest := by
  have same : (view.explain usage origin).chain =
      path :: project.importChain first origin.file := by
    simp only [FileView.explain, credits, shows.path_eq, shows.within]
  have forwards : first ∈ view.forwarders usage.item.key origin :=
    view.creditsVia_subset _ origin (credits ▸ List.mem_cons_self)
  have chained := (shows.chain_of_forwarder named forwards).1
  have step := ((shows.mem_forwarders _ origin first).mp forwards).1
  obtain ⟨rest, found⟩ := List.head?_eq_some_iff.mp chained.first
  rw [same]
  exact ⟨rfl, chained.cons step, rest, by rw [found]⟩

/-- Whether bags are credited can be read off the imports that show the definition. -/
theorem credited_bags (shows : project.Shows acyclic path view) (named : project.Named)
    (arrives : view.forwarders usage.item.key origin ≠ []) :
    (view.forwarders usage.item.key origin).any view.isBag = true ↔
      ∀ next ∈ view.creditsVia (view.forwarders usage.item.key origin) origin,
        project.IsBag next := by
  rw [List.any_eq_true]
  constructor
  · intro bags next credited
    rw [view.creditsVia_bags origin bags] at credited
    exact (shows.isBag_iff next).mp (List.mem_filter.mp credited).2
  · intro allBags
    by_contra bagless
    have plain : ∀ next ∈ view.forwarders usage.item.key origin, ¬ view.isBag next = true :=
      fun next listed isBag => bagless ⟨next, listed, isBag⟩
    obtain ⟨chosen, credits, closest⟩ := shows.creditsVia_plain named arrives plain
    have bag := allBags chosen (credits ▸ List.mem_singleton_self chosen)
    exact plain chosen closest.mem ((shows.isBag_iff chosen).mpr bag)

theorem shortest_explain (shows : project.Shows acyclic path view) (named : project.Named)
    (arrives : view.forwarders usage.item.key origin ≠ [])
    (plain : ∀ next ∈ view.forwarders usage.item.key origin, ¬ project.IsBag next)
    {next : Text} (forwards : next ∈ view.forwarders usage.item.key origin) {rest : List Text}
    (chained : project.Chain path origin.file (path :: next :: rest)) :
    (view.explain usage origin).chain.length ≤ (path :: next :: rest).length := by
  obtain ⟨chosen, credits, closest⟩ := shows.creditsVia_plain named arrives
    fun next listed isBag => plain next listed ((shows.isBag_iff next).mp isBag)
  rw [(shows.chain_explain named credits).1, List.length_cons, List.length_cons]
  apply Nat.succ_le_succ
  calc (project.importChain chosen origin.file).length
      ≤ (project.importChain next origin.file).length := closest.le forwards
    _ ≤ (next :: rest).length := (shows.chain_of_forwarder named forwards).2 _ chained.tail

theorem evident_explain (shows : project.Shows acyclic path view) (named : project.Named)
    (refers : view.scope.lookup usage.item = some origin) (foreign : origin.file ≠ path)
    (indirect : ¬ project.Imports path origin.file) :
    project.Evident view.scopes view.scope path (view.explain usage origin) := by
  have arrives := shows.forwarders_ne_nil refers foreign indirect
  have nonempty := view.creditsVia_ne_nil origin arrives
  obtain ⟨first, others, credits⟩ := List.exists_cons_of_ne_nil nonempty
  obtain ⟨-, chained, rest, begins⟩ := shows.chain_explain named credits
  have bags := shows.credited_bags named arrives
  exact
    { refers, arrives, chained
      forwards := fun next listed => shows.mem_forwarders_iff.mp listed
      credited := nonempty
      within := view.creditsVia_subset _ origin
      bags := by
        rw [← show _ ↔ ∀ next ∈ (view.explain usage origin).credited, project.IsBag next from bags]
        simp [FileView.explain]
      suggestion := by
        intro suggested given
        simp only [FileView.explain] at given
        split at given
        · cases given
        · exact (Option.some.inj given).symm
      second := ⟨first, rest, congrArg List.head? credits, begins⟩
      shortest := fun plain next listed rest =>
        shows.shortest_explain named arrives plain listed }

end Shows

/-- Every indirect use that is reported in an acyclic project without empty paths carries its
evidence. -/
theorem indirect_uses_evident (project : Project) (acyclic : project.Acyclic)
    (named : project.Named) (known : KnownCommands) (path : Text)
    (present : project.has path = true) :
    ∃ progress scope found, project.scopes = .ok progress ∧
      progress.scopes.get? path = some scope ∧
      (Analysis.ofScopes project progress.scopes known).file? path = some found ∧
      ∀ use ∈ found.indirect, project.Evident progress.scopes scope path use := by
  obtain ⟨file, held⟩ := (has_iff path).mp present
  obtain ⟨progress, scope, done, own, shows, found⟩ := exists_shown acyclic known held
  refine ⟨progress, scope, _, done, own, found, fun use reported => ?_⟩
  obtain ⟨refers, foreign, apart⟩ := FileView.lookup_of_indirect reported
  rw [shows.path_eq] at foreign
  have indirect : ¬ project.Imports path use.origin.file := by
    intro step
    rw [(shows.isDirect_iff _).mpr step] at apart
    cases apart
  rw [FileView.explain_of_indirect reported]
  exact shows.evident_explain named refers foreign indirect

/-- A file that uses a command which two imports lead to, the first in byte order by the longer
way, and a command that an import bag passes on. -/
def relay : Project :=
  [{ sketch "main" ["far", "kit", "near"] ["Run"] with
      usages := [⟨⟨"HELP", .function⟩, .zero⟩, ⟨⟨"List", .function⟩, .zero⟩] },
    sketch "far" ["middle"] ["walk"], sketch "middle" ["base"] ["rest"],
    sketch "near" ["base"] ["hop"], sketch "base" [] ["help"], sketch "kit" ["shelf"] [],
    sketch "shelf" [] ["list"]].foldl Project.put (Project.empty [])

theorem relay_acyclic : relay.Acyclic :=
  acyclic_of_rank (fun path => if path = Text.ofString "main" then 3
    else if path = Text.ofString "far" then 2
    else if path ∈ ["middle", "near", "kit"].map Text.ofString then 1 else 0) (by decide +kernel)

theorem relay_named : relay.Named := named_of_paths (by decide +kernel)

def relayReports : Option (List (List Text × Option Text)) :=
  match relay.scopes with
  | .ok progress =>
      ((Analysis.ofScopes relay progress.scopes ⟨.empty, .empty⟩).file? "main").map fun found =>
        found.indirect.map fun use => (use.chain, use.suggestion)
  | .error _ => none

theorem relay_indirect_uses_evident :
    relayReports = some ([(["main", "near", "base"], some "base"),
        (["main", "kit", "shelf"], none)] : List (List Text × Option Text)) ∧
      ∃ progress scope found, relay.scopes = .ok progress ∧
        progress.scopes.get? "main" = some scope ∧
        (Analysis.ofScopes relay progress.scopes ⟨.empty, .empty⟩).file? "main" = some found ∧
        ∀ use ∈ found.indirect, relay.Evident progress.scopes scope "main" use :=
  ⟨by decide +kernel, indirect_uses_evident relay relay_acyclic relay_named ⟨.empty, .empty⟩ "main"
    (by decide +kernel)⟩

end Project

end ScopeLint
