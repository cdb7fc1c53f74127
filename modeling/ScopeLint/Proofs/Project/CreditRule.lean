import ScopeLint.Proofs.Project.Credits
import ScopeLint.Proofs.Project.ShortestChains

/-!
The rule by which imports are credited, said without the computation: a definition is credited to
the import that holds it; or else to all import bags among the direct imports that show it; or else
to the one of those imports that is closest to it, the least path among equally close ones.
-/

namespace ScopeLint

/-- The first choice among some paths by length, and by byte order among those of equal length. -/
structure Closest (length : Text → Nat) (paths : List Text) (chosen : Text) : Prop where
  mem : chosen ∈ paths
  best : ∀ other ∈ paths,
    length chosen < length other ∨ length chosen = length other ∧ chosen ≤ other

namespace Closest

variable {length : Text → Nat} {paths : List Text} {first second chosen : Text}

theorem le (closest : Closest length paths chosen) {other : Text} (member : other ∈ paths) :
    length chosen ≤ length other := by
  rcases closest.best other member with less | ⟨same, -⟩
  · exact Nat.le_of_lt less
  · exact Nat.le_of_eq same

theorem unique (closest : Closest length paths first) (also : Closest length paths second) :
    first = second := by
  rcases closest.best second also.mem with less | ⟨-, left⟩
  · exact absurd (also.le closest.mem) (Nat.not_le_of_lt less)
  rcases also.best first closest.mem with less | ⟨-, right⟩
  · exact absurd (closest.le also.mem) (Nat.not_le_of_lt less)
  exact List.le_antisymm left right

/-- A longer path in front changes nothing. -/
theorem cons_of_lt (closest : Closest length (second :: paths) chosen)
    (longer : length second < length first) :
    Closest length (first :: second :: paths) chosen where
  mem := List.mem_cons_of_mem _ closest.mem
  best := by
    refine List.forall_mem_cons.mpr ⟨.inl ?_, closest.best⟩
    exact Nat.lt_of_le_of_lt (closest.le List.mem_cons_self) longer

/-- A path behind another one of at most its length changes nothing. -/
theorem cons_of_le (closest : Closest length (first :: paths) chosen)
    (before : first < second) (shorter : length first ≤ length second) :
    Closest length (first :: second :: paths) chosen where
  mem := by
    rcases List.mem_cons.mp closest.mem with rfl | later
    · exact List.mem_cons_self
    · exact List.mem_cons_of_mem _ (List.mem_cons_of_mem _ later)
  best := by
    obtain ⟨here, rest⟩ := List.forall_mem_cons.mp closest.best
    refine List.forall_mem_cons.mpr ⟨here, List.forall_mem_cons.mpr ⟨?_, rest⟩⟩
    rcases here with less | ⟨same, earlier⟩
    · exact .inl (Nat.lt_of_lt_of_le less shorter)
    · rcases Nat.lt_or_eq_of_le shorter with less | equal
      · exact .inl (same ▸ less)
      · exact .inr ⟨same.trans equal, List.le_trans earlier (List.le_of_lt before)⟩

end Closest

namespace FileView

theorem nearest_of_best (view : FileView) (target best : Text) (paths : List Text)
    (increasing : (best :: paths).Pairwise (· < ·))
    (found : ∀ path ∈ paths, view.project.importChain path target ≠ []) :
    ∃ chosen,
      view.nearest target (some (best, (view.project.importChain best target).length)) paths =
        some chosen ∧
      Closest (fun path => (view.project.importChain path target).length) (best :: paths) chosen := by
  induction paths generalizing best with
  | nil =>
      refine ⟨best, rfl, List.mem_singleton_self best, ?_⟩
      intro other member
      obtain rfl := List.mem_singleton.mp member
      exact .inr ⟨rfl, List.le_refl _⟩
  | cons path rest induction =>
      obtain ⟨before, later⟩ := List.pairwise_cons.mp increasing
      obtain ⟨here, others⟩ := List.forall_mem_cons.mp found
      have long : (view.project.importChain path target).length ≠ 0 :=
        fun empty => here (List.length_eq_zero_iff.mp empty)
      simp only [nearest, Option.all_some]
      by_cases shorter : (view.project.importChain path target).length <
          (view.project.importChain best target).length
      · obtain ⟨chosen, same, closest⟩ := induction path later others
        refine ⟨chosen, ?_, closest.cons_of_lt shorter⟩
        rw [← same]
        simp [long, shorter]
      · have skipped : (best :: rest).Pairwise (· < ·) :=
          increasing.sublist ((List.sublist_cons_self path rest).cons_cons best)
        obtain ⟨chosen, same, closest⟩ := induction best skipped others
        refine ⟨chosen, ?_, closest.cons_of_le (before path List.mem_cons_self) (Nat.le_of_not_lt shorter)⟩
        rw [← same]
        simp [shorter]

/-- Among paths that all lead to the target, the nearest is the one with the shortest chain. -/
theorem nearest_closest (view : FileView) (target : Text) {paths : List Text} (nonempty : paths ≠ [])
    (increasing : paths.Pairwise (· < ·))
    (found : ∀ path ∈ paths, view.project.importChain path target ≠ []) :
    ∃ chosen, view.nearest target none paths = some chosen ∧
      Closest (fun path => (view.project.importChain path target).length) paths chosen := by
  obtain ⟨first, rest, rfl⟩ := List.exists_cons_of_ne_nil nonempty
  obtain ⟨here, others⟩ := List.forall_mem_cons.mp found
  have long : (view.project.importChain first target).length ≠ 0 :=
    fun empty => here (List.length_eq_zero_iff.mp empty)
  obtain ⟨chosen, same, closest⟩ := view.nearest_of_best target first rest increasing others
  refine ⟨chosen, ?_, closest⟩
  rw [← same]
  simp [nearest, long]

/-- Where bags show a definition, they are what it is credited to. -/
theorem creditsVia_bags (view : FileView) {via : List Text} (origin : Origin)
    (bags : ∃ bag ∈ via, view.isBag bag = true) :
    view.creditsVia via origin = via.filter view.isBag := by
  obtain ⟨bag, listed, isBag⟩ := bags
  have nonempty : via.filter view.isBag ≠ [] :=
    List.ne_nil_of_mem (List.mem_filter.mpr ⟨listed, isBag⟩)
  rw [creditsVia, if_neg (by simpa using nonempty)]

theorem increasing_forwarders (view : FileView) (key : Key) (origin : Origin) :
    (view.forwarders key origin).Pairwise (· < ·) :=
  (List.pairwise_map.mpr view.file.imports.increasing).filter _

theorem isBag_iff (view : FileView) (path : Text) :
    view.isBag path = true ↔
      ∃ file, view.project.files.get? path = some file ∧ file.isImportBag = true := by
  rw [isBag]
  cases view.project.files.get? path <;> simp

end FileView

/-- A direct import of a file in whose scope a key refers to the file `target`. -/
def Scope.Forwards (scope : Scope) (scopes : Table Scope) (key : Key) (target next : Text) : Prop :=
  next ∈ scope.direct ∧ ∃ far origin, scopes.get? next = some far ∧
    far.find? key = some origin ∧ origin.file = target

namespace Project

def IsBag (project : Project) (path : Text) : Prop :=
  ∃ file, project.files.get? path = some file ∧ file.isImportBag = true

/-- The direct imports of a file with the given scope that are credited with bringing in the
definition of a key in the file `target`. -/
inductive CreditedFor (project : Project) (scopes : Table Scope) (scope : Scope) (key : Key)
    (target : Text) : Text → Prop
  /-- The import that holds the definition. -/
  | direct (near : target ∈ scope.direct) : CreditedFor project scopes scope key target target
  /-- Every import bag that shows it. -/
  | bag {next : Text} (far : target ∉ scope.direct)
      (forwards : scope.Forwards scopes key target next) (bag : project.IsBag next) :
      CreditedFor project scopes scope key target next
  /-- Where no bag shows it, the import with the shortest chain to it, and among equally short
  ones the first in byte order. -/
  | nearest {next : Text} (far : target ∉ scope.direct)
      (plain : ∀ other, scope.Forwards scopes key target other → ¬ project.IsBag other)
      (forwards : scope.Forwards scopes key target next)
      (closest : ∀ other chain, scope.Forwards scopes key target other →
        project.Chain other target chain → ∃ own, project.Chain next target own ∧
          (own.length < chain.length ∨ own.length = chain.length ∧ next ≤ other)) :
      CreditedFor project scopes scope key target next

namespace Shows

variable {project : Project} {acyclic : project.Acyclic} {path next : Text} {view : FileView}
  {key : Key} {origin : Origin}

theorem mem_direct (shows : project.Shows acyclic path view) :
    next ∈ view.scope.direct ↔ project.Imports path next := by
  rw [shows.scope.direct, Imports]

theorem isBag_iff (shows : project.Shows acyclic path view) (next : Text) :
    view.isBag next = true ↔ project.IsBag next := by
  rw [FileView.isBag_iff, shows.within, IsBag]

theorem mem_forwarders_iff (shows : project.Shows acyclic path view) :
    next ∈ view.forwarders key origin ↔
      view.scope.Forwards view.scopes key origin.file next := by
  have listed : next ∈ view.scope.direct → next ∈ view.file.importPaths := by
    intro direct
    have step := shows.mem_direct.mp direct
    exact (Table.mem_keys _ _).mpr ((imports_iff shows.held).mp step).1
  simp only [FileView.forwarders, List.mem_filter, FileView.isDirect, List.elem_eq_mem,
    Bool.and_eq_true, decide_eq_true_eq, Option.map_eq_some_iff, Option.bind_eq_some_iff,
    Scope.Forwards]
  constructor
  · rintro ⟨-, direct, shown, ⟨far, found, seen⟩, same⟩
    exact ⟨direct, far, shown, found, seen, same⟩
  · rintro ⟨direct, far, shown, found, seen, same⟩
    exact ⟨listed direct, direct, shown, ⟨far, found, seen⟩, same⟩

/-- What forwards a definition leads to its file, so the search finds a shortest chain. -/
theorem chain_of_forwarder (shows : project.Shows acyclic path view) (named : project.Named)
    (forwards : next ∈ view.forwarders key origin) :
    project.Chain next origin.file (project.importChain next origin.file) ∧
      ∀ other, project.Chain next origin.file other →
        (project.importChain next origin.file).length ≤ other.length := by
  obtain ⟨-, visible⟩ := (shows.mem_forwarders key origin next).mp forwards
  obtain ⟨shown, seen, same⟩ := Option.map_eq_some_iff.mp visible
  obtain ⟨reaches, own⟩ := visible_origin acyclic seen
  obtain ⟨-, file, held, -⟩ := ownOrigin_eq_some own
  rw [same] at reaches held
  exact importChain_shortest named ((has_iff _).mpr ⟨file, held⟩) reaches

/-- Without bags a definition is credited to the forwarder with the shortest chain. -/
theorem creditsVia_plain (shows : project.Shows acyclic path view) (named : project.Named)
    (arrives : view.forwarders key origin ≠ [])
    (plain : ∀ next ∈ view.forwarders key origin, ¬ view.isBag next = true) :
    ∃ chosen, view.creditsVia (view.forwarders key origin) origin = [chosen] ∧
      Closest (fun next => (project.importChain next origin.file).length)
        (view.forwarders key origin) chosen := by
  have found : ∀ next ∈ view.forwarders key origin,
      view.project.importChain next origin.file ≠ [] := by
    intro next forwards
    rw [shows.within]
    exact (shows.chain_of_forwarder named forwards).1.ne_nil
  obtain ⟨chosen, nearest, closest⟩ := view.nearest_closest origin.file arrives
    (view.increasing_forwarders key origin) found
  rw [shows.within] at closest
  refine ⟨chosen, ?_, closest⟩
  rw [FileView.creditsVia, List.filter_eq_nil_iff.mpr plain, nearest]
  rfl

theorem closest_iff (shows : project.Shows acyclic path view) (named : project.Named) :
    Closest (fun next => (project.importChain next origin.file).length)
        (view.forwarders key origin) next ↔
      view.scope.Forwards view.scopes key origin.file next ∧
        ∀ other chain, view.scope.Forwards view.scopes key origin.file other →
          project.Chain other origin.file chain → ∃ own, project.Chain next origin.file own ∧
            (own.length < chain.length ∨ own.length = chain.length ∧ next ≤ other) := by
  simp only [← shows.mem_forwarders_iff]
  constructor
  · intro closest
    refine ⟨closest.mem, fun other chain member chained => ?_⟩
    have shortest := (shows.chain_of_forwarder named member).2 chain chained
    refine ⟨_, (shows.chain_of_forwarder named closest.mem).1, ?_⟩
    rcases closest.best other member with less | ⟨same, first⟩
    · exact .inl (Nat.lt_of_lt_of_le less shortest)
    · rcases Nat.lt_or_eq_of_le shortest with less | equal
      · exact .inl (same ▸ less)
      · exact .inr ⟨same.trans equal, first⟩
  · rintro ⟨forwards, best⟩
    refine ⟨forwards, fun other member => ?_⟩
    obtain ⟨own, chained, nearer⟩ :=
      best other _ member (shows.chain_of_forwarder named member).1
    have shortest := (shows.chain_of_forwarder named forwards).2 own chained
    rcases nearer with less | ⟨same, first⟩
    · exact .inl (Nat.lt_of_le_of_lt shortest less)
    · rcases Nat.lt_or_eq_of_le shortest with less | equal
      · exact .inl (same ▸ less)
      · exact .inr ⟨equal.trans same, first⟩

/-- The computed credits of a visible definition of another file follow the rule. -/
theorem mem_credits (shows : project.Shows acyclic path view) (named : project.Named)
    (seen : view.scope.find? key = some origin) (foreign : origin.file ≠ path) :
    next ∈ view.credits key origin ↔
      project.CreditedFor view.scopes view.scope key origin.file next := by
  rw [FileView.credits, if_neg (by rwa [shows.path_eq])]
  by_cases near : origin.file ∈ view.scope.direct
  · rw [if_pos (by simpa [FileView.isDirect] using near), List.mem_singleton]
    constructor
    · rintro rfl
      exact .direct near
    · intro credited
      cases credited with
      | direct => rfl
      | bag far | nearest far => exact absurd near far
  rw [if_neg (by simpa [FileView.isDirect] using near)]
  by_cases bags : ∃ bag ∈ view.forwarders key origin, view.isBag bag = true
  · rw [view.creditsVia_bags origin bags, List.mem_filter, shows.mem_forwarders_iff,
      shows.isBag_iff]
    constructor
    · rintro ⟨forwards, bag⟩
      exact .bag near forwards bag
    · intro credited
      cases credited with
      | direct near => contradiction
      | bag far forwards bag => exact ⟨forwards, bag⟩
      | nearest far plain =>
          obtain ⟨bag, listed, isBag⟩ := bags
          exact absurd ((shows.isBag_iff bag).mp isBag)
            (plain bag (shows.mem_forwarders_iff.mp listed))
  · have plain : ∀ other ∈ view.forwarders key origin, ¬ view.isBag other = true :=
      fun other listed isBag => bags ⟨other, listed, isBag⟩
    have arrives := shows.forwarders_ne_nil seen foreign fun step => near (shows.mem_direct.mpr step)
    obtain ⟨chosen, credits, closest⟩ := shows.creditsVia_plain named arrives plain
    rw [credits, List.mem_singleton]
    constructor
    · rintro rfl
      obtain ⟨forwards, best⟩ := (shows.closest_iff named).mp closest
      refine .nearest near (fun other shown isBag => ?_) forwards best
      exact plain other (shows.mem_forwarders_iff.mpr shown) ((shows.isBag_iff other).mpr isBag)
    · intro credited
      cases credited with
      | direct near => contradiction
      | bag far forwards bag =>
          exact absurd ((shows.isBag_iff next).mpr bag)
            (plain next (shows.mem_forwarders_iff.mpr forwards))
      | nearest far _ forwards best =>
          exact ((shows.closest_iff named).mpr ⟨forwards, best⟩).unique closest

end Shows

end Project

end ScopeLint
