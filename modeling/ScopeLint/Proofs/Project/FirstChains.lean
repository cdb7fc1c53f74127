import ScopeLint.Proofs.Project.Scopes
import ScopeLint.Proofs.Project.ShortestChains

/-!
Of several shortest chains of imports the search finds the one that comes first, chains being compared
path by path. Trails wait in its queue in that order, and those that wait were found behind trails that
no longer do; so a path that is met for the first time is met by the first of its shortest trails. This
holds with cycles and with imports that lead nowhere, which end a chain.
-/

namespace ScopeLint

namespace Project

variable {project : Project} {source target path next : Text} {fuel : Nat}
  {queue : List (List Text)} {seen chain left right : List Text}

/-- A file of the project imports a path, which may be absent from it. -/
def Leads (project : Project) (path next : Text) : Prop :=
  ∃ file, project.files.get? path = some file ∧ file.imports.contains next = true

/-- A chain of imports with both ends included. Only the last path may be absent from the project. -/
structure Route (project : Project) (source target : Text) (chain : List Text) : Prop where
  first : chain.head? = some source
  last : chain.getLast? = some target
  steps : chain.IsChain project.Leads

theorem leads_iff : project.Leads path next ↔ next ∈ project.importsOf path := by
  unfold Leads importsOf
  cases project.files.get? path with
  | none => simp
  | some file => simp [ProjectFile.importPaths, Table.mem_keys]

theorem trail_iff : project.Trail source target chain ↔
    chain.head? = some target ∧ chain.getLast? = some source ∧
      chain.IsChain fun next path => project.Leads path next := by
  constructor
  · intro trail
    induction trail with
    | start => exact ⟨rfl, rfl, .singleton source⟩
    | @next path next chain trail listed induction =>
        obtain ⟨head, last, steps⟩ := induction
        obtain ⟨rest, rfl⟩ := List.head?_eq_some_iff.mp head
        refine ⟨rfl, ?_, List.isChain_cons_cons.mpr ⟨leads_iff.mpr listed, steps⟩⟩
        rw [List.getLast?_cons_cons, last]
  · rintro ⟨head, last, steps⟩
    induction chain generalizing target with
    | nil => cases head
    | cons first rest induction =>
        obtain rfl := Option.some.inj head
        cases rest with
        | nil =>
            obtain rfl := Option.some.inj last
            exact .start
        | cons second rest =>
            obtain ⟨step, steps⟩ := List.isChain_cons_cons.mp steps
            rw [List.getLast?_cons_cons] at last
            exact .next (induction rfl last steps) (leads_iff.mp step)

/-- The search holds routes in reverse. -/
theorem route_iff : project.Route source target chain ↔ project.Trail source target chain.reverse := by
  rw [trail_iff, List.head?_reverse, List.getLast?_reverse, List.isChain_reverse]
  constructor
  · rintro ⟨first, last, steps⟩
    exact ⟨last, first, steps⟩
  · rintro ⟨last, first, steps⟩
    exact ⟨first, last, steps⟩

theorem reaches_iff_trail :
    Relation.ReflTransGen project.Leads source target ↔ ∃ chain, project.Trail source target chain := by
  constructor
  · intro reaches
    induction reaches with
    | refl => exact ⟨[source], .start⟩
    | tail _ step induction =>
        obtain ⟨chain, trail⟩ := induction
        exact ⟨_, trail.next (leads_iff.mp step)⟩
  · rintro ⟨chain, trail⟩
    induction trail with
    | start => exact .refl
    | next _ listed induction => exact induction.tail (leads_iff.mpr listed)

theorem Trail.exists_front (trail : project.Trail source target chain) :
    ∀ path ∈ chain, ∃ front, project.Trail source path front ∧ front.length ≤ chain.length := by
  induction trail with
  | start =>
      intro path member
      obtain rfl := List.mem_singleton.mp member
      exact ⟨_, .start, Nat.le_refl _⟩
  | next trail listed induction =>
      intro path member
      rcases List.mem_cons.mp member with rfl | behind
      · exact ⟨_, trail.next listed, Nat.le_refl _⟩
      · obtain ⟨front, shorter, bound⟩ := induction path behind
        exact ⟨front, shorter, Nat.le_succ_of_le bound⟩

/-- A shortest trail passes nothing twice, for it could be cut short there. -/
theorem Shortest.nodup (shortest : project.Shortest source target chain) : chain.Nodup := by
  obtain ⟨trail, least⟩ := shortest
  induction trail with
  | start => exact List.nodup_singleton source
  | @next path next chain trail listed induction =>
      refine List.nodup_cons.mpr ⟨fun member => ?_, induction fun other before => ?_⟩
      · obtain ⟨front, shorter, bound⟩ := trail.exists_front next member
        have least := least front shorter
        rw [List.length_cons] at least
        omega
      · exact Nat.le_of_succ_le_succ (least _ (before.next listed))

theorem Trail.filled (named : project.Named) (trail : project.Trail source target chain)
    (filled : target ≠ []) : ∀ path ∈ chain, path ≠ [] := by
  cases trail with
  | start =>
      intro path member
      rwa [List.mem_singleton.mp member]
  | next trail listed =>
      have files := trail.has_all (has_of_listed listed)
      exact List.forall_mem_cons.mpr ⟨filled, fun path member => named path (files path member)⟩

/-- Trails in the order in which they are found: shorter ones first, and those of one length by the
paths that they pass, compared from the start. -/
def Before (left right : List Text) : Prop :=
  left.length < right.length ∨ left.length = right.length ∧ left.reverse < right.reverse

theorem Before.trans {middle : List Text} (first : Before left middle) (second : Before middle right) :
    Before left right := by
  rcases first with shorter | ⟨same, less⟩
  · rcases second with also | ⟨equal, -⟩
    · exact .inl (Nat.lt_trans shorter also)
    · exact .inl (equal ▸ shorter)
  · rcases second with shorter | ⟨equal, further⟩
    · exact .inl (same ▸ shorter)
    · exact .inr ⟨same.trans equal, List.lt_trans less further⟩

theorem Before.irrefl (chain : List Text) : ¬ Before chain chain := by
  rintro (shorter | ⟨-, less⟩)
  · exact Nat.lt_irrefl _ shorter
  · exact List.lt_irrefl _ less

theorem append_lt_append {others : List Text} (same : left.length = right.length) (less : left < right) :
    left ++ chain < right ++ others := by
  induction left generalizing right with
  | nil =>
      rw [List.length_eq_zero_iff.mp same.symm] at less
      exact absurd less (List.lt_irrefl [])
  | cons first left induction =>
      cases right with
      | nil => cases same
      | cons second right =>
          rw [List.cons_append, List.cons_append, List.cons_lt_cons_iff]
          exact (List.cons_lt_cons_iff.mp less).imp_right
            (And.imp_right (induction (Nat.succ.inj same)))

theorem Before.cons (before : Before left right) (path next : Text) :
    Before (path :: left) (next :: right) := by
  rcases before with shorter | ⟨same, less⟩
  · exact .inl (Nat.succ_lt_succ shorter)
  · refine .inr ⟨congrArg Nat.succ same, ?_⟩
    rw [List.reverse_cons, List.reverse_cons]
    exact append_lt_append (by simpa using same) less

theorem before_cons (chain : List Text) (next : Text) : Before chain (next :: chain) :=
  .inl (Nat.lt_succ_self _)

structure First (project : Project) (source path : Text) (chain : List Text) : Prop where
  trail : project.Trail source path chain
  least : ∀ other, project.Trail source path other → ¬ Before other chain

theorem First.shortest (first : project.First source path chain) :
    project.Shortest source path chain :=
  ⟨first.trail, fun other trail => Nat.not_lt.mp fun shorter => first.least other trail (.inl shorter)⟩

theorem increasing_importsOf (path : Text) : (project.importsOf path).Pairwise (· < ·) := by
  rw [importsOf]
  cases project.files.get? path with
  | none => exact .nil
  | some file => exact List.pairwise_map.mpr file.imports.increasing

/-- What holds besides of the queue whenever the search takes a step. -/
structure Ranked (project : Project) (source target : Text) (queue : List (List Text))
    (seen : List Text) : Prop extends Searching project source target queue seen where
  firsts : ∀ chain ∈ queue, ∃ path, project.First source path chain
  ranked : queue.Pairwise Before
  /-- What waits was found behind a trail that came before everything that waits. -/
  parents : ∀ chain ∈ queue, ∀ later ∈ queue, Before chain.tail later

theorem ranked_start (source target : Text) : project.Ranked source target [[source]] [source] := by
  refine ⟨searching_start source target, ?_, List.pairwise_singleton _ _, ?_⟩
  · intro chain member
    obtain rfl := List.mem_singleton.mp member
    refine ⟨source, .start, ?_⟩
    rintro other trail (shorter | ⟨same, less⟩)
    · obtain ⟨rest, rfl⟩ := List.head?_eq_some_iff.mp trail.head_eq
      simp at shorter
    · obtain ⟨rest, rfl⟩ := List.head?_eq_some_iff.mp trail.head_eq
      obtain rfl : rest = [] := by simpa using same
      exact List.lt_irrefl _ less
  · intro chain member later other
    rw [List.mem_singleton.mp member, List.mem_singleton.mp other]
    exact before_cons [] source

namespace Ranked

theorem first_of_shortest (ranked : project.Ranked source target queue seen) (waits : chain ∈ queue)
    (shortest : project.Shortest source path chain) : project.First source path chain := by
  obtain ⟨other, first⟩ := ranked.firsts chain waits
  obtain rfl : other = path := by
    have same := first.trail.head_eq
    rw [shortest.trail.head_eq] at same
    exact (Option.some.inj same).symm
  exact first

/-- Whatever has a trail that is no longer than those that wait has been seen. -/
theorem mem_seen (ranked : project.Ranked source target queue seen)
    (trail : project.Trail source path chain)
    (bound : ∀ waiting ∈ queue, chain.length ≤ waiting.length) : path ∈ seen := by
  cases trail with
  | start => exact ranked.started
  | next before listed =>
      have passed := ranked.toSearching.passed before fun waiting member =>
        Nat.lt_of_succ_le (bound waiting member)
      exact passed.noted listed

/-- A path that is met for the first time is met by its first trail: one before that would have come
along a path whose own first trail waits no more, and then its imports were seen. -/
theorem first_fresh (ranked : project.Ranked source target (chain :: queue) seen)
    (first : project.First source path chain) (listed : next ∈ project.importsOf path)
    (fresh : next ∉ seen) : project.First source next (next :: chain) := by
  have shortest := ranked.toSearching.shortest_fresh first.shortest listed fresh
  refine ⟨shortest.trail, fun other trail sooner => ?_⟩
  have least := shortest.least other trail
  obtain ⟨same, less⟩ := sooner.resolve_left (Nat.not_lt.mpr least)
  cases trail with
  | start => exact fresh ranked.started
  | @next middle next front before offered =>
      have same : front.length = chain.length := Nat.succ.inj same
      have earlier : Before front chain := by
        refine .inr ⟨same, ?_⟩
        rw [List.reverse_cons, List.reverse_cons] at less
        by_contra above
        have back : chain.reverse ≤ front.reverse := List.not_lt.mp above
        rcases Decidable.em (chain.reverse < front.reverse) with greater | equal
        · exact List.lt_irrefl _ (List.lt_trans less (append_lt_append (by simp [same]) greater))
        · rw [List.le_antisymm back (List.not_lt.mp equal)] at less
          exact List.lt_irrefl _ less
      have inFront : ∀ waiting ∈ chain :: queue, front.length ≤ waiting.length := by
        intro waiting member
        rw [same]
        rcases List.mem_cons.mp member with rfl | later
        · exact Nat.le_refl _
        · exact ((List.pairwise_cons.mp ranked.ordered).1 waiting later).1
      rcases ranked.settled middle (ranked.mem_seen before inFront) with ⟨best, waits, short⟩ | passed
      · have soonest := (ranked.first_of_shortest waits short).least front before
        rcases List.mem_cons.mp waits with rfl | later
        · exact soonest earlier
        · exact soonest (earlier.trans ((List.pairwise_cons.mp ranked.ranked).1 best later))
      · exact fresh (passed.noted offered)

theorem step (ranked : project.Ranked source target ((path :: chain) :: queue) seen)
    (missed : path ≠ target) :
    let fresh := (project.importsOf path).filter fun next => !seen.elem next
    project.Ranked source target (queue ++ fresh.map (· :: path :: chain)) (seen ++ fresh) := by
  intro fresh
  obtain ⟨other, first⟩ := ranked.firsts _ List.mem_cons_self
  obtain rfl := first.trail.path_eq
  obtain ⟨behind, rest⟩ := List.pairwise_cons.mp ranked.ranked
  have parent : ∀ waiting ∈ queue ++ fresh.map (· :: path :: chain),
      Before (path :: chain) waiting := by
    intro waiting member
    rcases List.mem_append.mp member with old | new
    · exact behind waiting old
    · obtain ⟨next, -, rfl⟩ := List.mem_map.mp new
      exact before_cons _ next
  refine ⟨ranked.toSearching.step missed, ?_, List.pairwise_append.mpr ⟨rest, ?_, ?_⟩, ?_⟩
  · intro waiting member
    rcases List.mem_append.mp member with old | new
    · exact ranked.firsts waiting (List.mem_cons_of_mem _ old)
    · obtain ⟨next, among, rfl⟩ := List.mem_map.mp new
      obtain ⟨listed, unseen⟩ := List.mem_filter.mp among
      exact ⟨next, ranked.first_fresh first listed (by simpa using unseen)⟩
  · apply List.pairwise_map.mpr
    refine ((increasing_importsOf path).filter _).imp fun {next later} less => ?_
    refine .inr ⟨rfl, ?_⟩
    rw [List.reverse_cons, List.reverse_cons (a := later)]
    exact List.append_left_lt (List.cons_lt_cons_iff.mpr (.inl less))
  · -- What waits already was found behind something that came before the trail taken now.
    intro waiting old longer new
    obtain ⟨next, -, rfl⟩ := List.mem_map.mp new
    have tail := ranked.parents waiting (List.mem_cons_of_mem _ old) _ List.mem_cons_self
    cases waiting with
    | nil => exact .inl (Nat.succ_pos _)
    | cons last front => exact tail.cons last next
  · intro waiting member later other
    rcases List.mem_append.mp member with old | new
    · have tail := ranked.parents waiting (List.mem_cons_of_mem _ old) _ List.mem_cons_self
      exact tail.trans (parent later other)
    · obtain ⟨next, -, rfl⟩ := List.mem_map.mp new
      exact parent later other

end Ranked

theorem first_searchChain (fuel : Nat) (queue : List (List Text)) (seen : List Text)
    (ranked : project.Ranked source target queue seen)
    (fueled : project.Fueled source fuel queue seen) :
    project.First source target (project.searchChain target fuel queue seen) ∨
      project.searchChain target fuel queue seen = [] ∧
        ∀ chain, ¬ project.Trail source target chain := by
  induction fuel generalizing queue seen with
  | zero => exact fueled.not_zero.elim
  | succ fuel induction =>
      match queue with
      | [] =>
          rw [searchChain]
          refine .inr ⟨rfl, fun chain trail => ?_⟩
          exact (ranked.toSearching.passed trail (by simp)).missed rfl
      | [] :: queue =>
          obtain ⟨path, first⟩ := ranked.firsts [] List.mem_cons_self
          cases first.trail.head_eq
      | (path :: chain) :: queue =>
          rw [searchChain]
          split
          next met =>
            obtain ⟨other, first⟩ := ranked.firsts _ List.mem_cons_self
            obtain rfl := first.trail.path_eq
            exact .inl (met ▸ first)
          next missed => exact induction _ _ (ranked.step missed) (fueled.next path)

/-- No chain is found exactly if no imports lead to the target. What is found otherwise is a route that
passes nothing twice, no route is shorter, and of those that are as short none comes before it in the
order of paths. -/
theorem importChain_first (named : project.Named) (filled : target ≠ []) :
    (project.importChain source target = [] ↔ ¬ Relation.ReflTransGen project.Leads source target) ∧
    (Relation.ReflTransGen project.Leads source target →
      project.Route source target (project.importChain source target) ∧
      (project.importChain source target).Nodup ∧
      ∀ other, project.Route source target other →
        (project.importChain source target).length ≤ other.length ∧
        (other.length = (project.importChain source target).length →
          project.importChain source target ≤ other)) := by
  have start : project.Ranked source target [[source]] [source] := ranked_start source target
  have found := first_searchChain _ _ _ start (fueled_start source)
  rw [importChain, reaches_iff_trail]
  generalize project.searchChain target (project.importCount + 2) [[source]] [source] = chain at found
  rcases found with first | ⟨rfl, never⟩
  · have whole : chain.takeWhile (· ≠ []) = chain := by
      rw [List.takeWhile_eq_self_iff]
      exact fun path member => decide_eq_true (first.trail.filled named filled path member)
    simp only [whole]
    refine ⟨iff_of_false ?_ (not_not_intro ⟨chain, first.trail⟩), fun _ => ⟨?_, ?_, ?_⟩⟩
    · intro empty
      have head := first.trail.head_eq
      rw [List.reverse_eq_nil_iff.mp empty] at head
      cases head
    · exact route_iff.mpr (by rw [List.reverse_reverse]; exact first.trail)
    · exact List.nodup_reverse.mpr first.shortest.nodup
    · intro other route
      have trail := route_iff.mp route
      have least := first.shortest.least _ trail
      rw [List.length_reverse] at least
      refine ⟨by rwa [List.length_reverse], fun same => List.not_lt.mp fun less => ?_⟩
      refine first.least _ trail (.inr ⟨by rw [List.length_reverse, same, List.length_reverse], ?_⟩)
      rwa [List.reverse_reverse]
  · refine ⟨iff_of_true rfl fun reached => reached.elim never, ?_⟩
    rintro ⟨chain, trail⟩
    exact absurd trail (never chain)

/-- Two files that import each other, two ways of one length to a path that is absent, and a longer
one. -/
def crossing : Project :=
  [sketch "gate" ["south", "north", "lane"] [], sketch "north" ["gate", "pier"] [],
    sketch "south" ["pier"] [], sketch "lane" ["south"] []].foldl Project.put (Project.empty [])

theorem crossing_named : crossing.Named := named_of_paths (by decide +kernel)

theorem crossing_chain_first :
    crossing.has "pier" = false ∧
      crossing.importChain "gate" "pier" = ["gate", "north", "pier"].map Text.ofString ∧
      Relation.ReflTransGen crossing.Leads "gate" "pier" ∧
      crossing.Route "gate" "pier" (["gate", "north", "pier"].map Text.ofString) ∧
      (∀ other, crossing.Route "gate" "pier" other → other.length = 3 →
        ["gate", "north", "pier"].map Text.ofString ≤ other) ∧
      ¬ Relation.ReflTransGen crossing.Leads "pier" "gate" := by
  have found : crossing.importChain "gate" "pier" = ["gate", "north", "pier"].map Text.ofString := by
    decide +kernel
  obtain ⟨unreached, first⟩ := @importChain_first crossing "gate" "pier" crossing_named (by decide +kernel)
  obtain ⟨back, -⟩ := @importChain_first crossing "pier" "gate" crossing_named (by decide +kernel)
  rw [found] at unreached first
  have reaches : Relation.ReflTransGen crossing.Leads "gate" "pier" := by
    by_contra apart
    cases unreached.mpr apart
  obtain ⟨route, -, least⟩ := first reaches
  refine ⟨by decide +kernel, found, reaches, route, fun other along same => ?_,
    back.mp (by decide +kernel)⟩
  exact (least other along).2 same

end Project

end ScopeLint
