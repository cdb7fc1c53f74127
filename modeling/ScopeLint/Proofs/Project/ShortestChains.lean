import Mathlib.Data.List.Chain
import Mathlib.Data.List.TakeWhile
import ScopeLint.Proofs.Project.Chains

/-!
Chains of imports are shortest. The search holds a shortest trail for everything that waits in its
queue, shorter ones first and never more than one step apart; what it has seen and no longer waits
has been looked at, so that all its imports have been seen. From that a path which is met for the
first time is met by a shortest trail. Empty paths apart, what the search finds for a file of the
project is therefore a chain of imports between its files, and no other chain is shorter.
-/

namespace ScopeLint.Project

variable {project : Project} {source target path next : Text} {fuel : Nat}
  {queue : List (List Text)} {seen chain : List Text}

structure Chain (project : Project) (source target : Text) (chain : List Text) : Prop where
  first : chain.head? = some source
  last : chain.getLast? = some target
  steps : chain.IsChain project.Imports

theorem chain_start (source : Text) : project.Chain source source [source] :=
  ⟨rfl, rfl, List.IsChain.singleton source⟩

theorem Chain.ne_nil (chained : project.Chain source target chain) : chain ≠ [] := by
  rintro rfl
  cases chained.first

theorem Chain.append (chained : project.Chain source path chain)
    (step : project.Imports path next) : project.Chain source next (chain ++ [next]) where
  first := by rw [List.head?_append, chained.first, Option.some_or]
  last := by rw [List.getLast?_append, List.getLast?_singleton, Option.some_or]
  steps := by
    refine List.isChain_append.mpr ⟨chained.steps, List.IsChain.singleton next, ?_⟩
    intro last final other first
    rw [chained.last] at final
    obtain rfl := Option.some.inj final
    obtain rfl := Option.some.inj first
    exact step

/-- A chain starts with an import of the file in front of it. -/
theorem Chain.cons (chained : project.Chain next target chain)
    (step : project.Imports path next) : project.Chain path target (path :: chain) where
  first := rfl
  last := by rw [List.getLast?_cons, chained.last, Option.getD_some]
  steps := by
    obtain ⟨rest, rfl⟩ := List.head?_eq_some_iff.mp chained.first
    exact List.isChain_cons_cons.mpr ⟨step, chained.steps⟩

theorem Chain.tail {rest : List Text} (chained : project.Chain source target (path :: next :: rest)) :
    project.Chain next target (next :: rest) where
  first := rfl
  last := by rw [← List.getLast?_cons_cons, chained.last]
  steps := (List.isChain_cons_cons.mp chained.steps).2

theorem exists_chain (reaches : project.Reaches source target) :
    ∃ chain, project.Chain source target chain := by
  induction reaches with
  | refl => exact ⟨[source], chain_start source⟩
  | tail _ step induction =>
      obtain ⟨chain, chained⟩ := induction
      exact ⟨_, chained.append step⟩

/-- What the search holds of a way to a path: the paths in reverse, back to where it started. The
path itself may be absent from the project. -/
inductive Trail (project : Project) (source : Text) : Text → List Text → Prop
  | start : Trail project source source [source]
  | next {path next : Text} {chain : List Text} (trail : Trail project source path chain)
      (listed : next ∈ project.importsOf path) : Trail project source next (next :: chain)

theorem Trail.head_eq (trail : project.Trail source path chain) : chain.head? = some path := by
  cases trail <;> rfl

theorem Trail.path_eq (trail : project.Trail source next (path :: chain)) : path = next :=
  Option.some.inj trail.head_eq

theorem has_of_listed (listed : next ∈ project.importsOf path) : project.has path = true := by
  cases held : project.files.get? path with
  | none => simp [importsOf, held] at listed
  | some file => exact (has_iff path).mpr ⟨file, held⟩

/-- Only files import something, so a trail to a file meets files only. -/
theorem Trail.has_all (trail : project.Trail source path chain) (present : project.has path = true) :
    ∀ file ∈ chain, project.has file = true := by
  induction trail with
  | start =>
      intro file member
      rwa [List.mem_singleton.mp member]
  | next _ listed induction =>
      exact List.forall_mem_cons.mpr ⟨present, induction (has_of_listed listed)⟩

theorem Trail.chain_reverse (trail : project.Trail source path chain)
    (present : project.has path = true) : project.Chain source path chain.reverse := by
  induction trail with
  | start => exact chain_start source
  | next _ listed induction =>
      rw [List.reverse_cons]
      exact (induction (has_of_listed listed)).append (List.mem_filter.mpr ⟨listed, present⟩)

theorem Chain.trail_reverse (chained : project.Chain source target chain) :
    project.Trail source target chain.reverse := by
  induction chain using List.reverseRecOn generalizing target with
  | nil => exact absurd rfl chained.ne_nil
  | append_singleton front last induction =>
      obtain rfl : last = target := by simpa using chained.last
      rw [List.reverse_append, List.reverse_singleton, List.singleton_append]
      rcases List.eq_nil_or_concat front with rfl | ⟨before, middle, same⟩
      · obtain rfl : last = source := by simpa using chained.first
        exact .start
      · rw [List.concat_eq_append] at same
        subst same
        obtain ⟨steps, -, meets⟩ := List.isChain_append.mp chained.steps
        have step : project.Imports middle last := meets middle (by simp) last (by simp)
        have front : project.Chain source middle (before ++ [middle]) :=
          ⟨by simpa using chained.first, by simp, steps⟩
        exact .next (induction front) (List.mem_filter.mp step).1

structure Shortest (project : Project) (source path : Text) (chain : List Text) : Prop where
  trail : project.Trail source path chain
  least : ∀ other, project.Trail source path other → chain.length ≤ other.length

structure Passed (project : Project) (target : Text) (seen : List Text) (path : Text) : Prop where
  missed : path ≠ target
  noted : project.importsOf path ⊆ seen

/-- What holds of the queue and the paths seen whenever the search takes a step. -/
structure Searching (project : Project) (source target : Text) (queue : List (List Text))
    (seen : List Text) : Prop where
  started : source ∈ seen
  waiting : ∀ chain ∈ queue, ∃ path, project.Shortest source path chain
  ordered : queue.Pairwise fun chain later =>
    chain.length ≤ later.length ∧ later.length ≤ chain.length + 1
  settled : ∀ path ∈ seen,
    (∃ chain ∈ queue, project.Shortest source path chain) ∨ project.Passed target seen path

theorem searching_start (source target : Text) :
    project.Searching source target [[source]] [source] := by
  have shortest : project.Shortest source source [source] := by
    refine ⟨.start, fun other trail => ?_⟩
    obtain ⟨rest, rfl⟩ := List.head?_eq_some_iff.mp trail.head_eq
    simp
  refine ⟨List.mem_singleton_self source, ?_, List.pairwise_singleton _ _, ?_⟩
  · intro chain member
    exact ⟨source, List.mem_singleton.mp member ▸ shortest⟩
  · intro path member
    obtain rfl := List.mem_singleton.mp member
    exact .inl ⟨[path], List.mem_singleton_self _, shortest⟩

namespace Searching

/-- Something seen to which a trail leads that is shorter than all that wait has been passed. -/
theorem passed_of_seen (searching : project.Searching source target queue seen)
    (trail : project.Trail source path chain)
    (shorter : ∀ waiting ∈ queue, chain.length < waiting.length) (member : path ∈ seen) :
    project.Passed target seen path := by
  rcases searching.settled path member with ⟨waiting, listed, shortest⟩ | passed
  · have least := shortest.least chain trail
    have less := shorter waiting listed
    omega
  · exact passed

theorem passed (searching : project.Searching source target queue seen)
    (trail : project.Trail source path chain)
    (shorter : ∀ waiting ∈ queue, chain.length < waiting.length) :
    project.Passed target seen path := by
  induction trail with
  | start => exact searching.passed_of_seen .start shorter searching.started
  | next trail listed induction =>
      have before := induction fun waiting member =>
        Nat.lt_of_succ_lt (shorter waiting member)
      exact searching.passed_of_seen (trail.next listed) shorter (before.noted listed)

/-- A path that is met for the first time is met by a shortest trail: whatever has a trail shorter
than the one in front of the queue was passed, and its imports were seen. -/
theorem shortest_fresh (searching : project.Searching source target (chain :: queue) seen)
    (shortest : project.Shortest source path chain) (listed : next ∈ project.importsOf path)
    (fresh : next ∉ seen) : project.Shortest source next (next :: chain) := by
  refine ⟨shortest.trail.next listed, fun other trail => ?_⟩
  by_contra longer
  have bound : other.length ≤ chain.length := by
    simp only [List.length_cons] at longer
    omega
  cases trail with
  | start => exact fresh searching.started
  | next before offered =>
      have inFront : ∀ waiting ∈ chain :: queue, chain.length ≤ waiting.length := by
        intro waiting member
        rcases List.mem_cons.mp member with rfl | later
        · exact Nat.le_refl _
        · exact ((List.pairwise_cons.mp searching.ordered).1 waiting later).1
      have passed := searching.passed before fun waiting member =>
        Nat.lt_of_lt_of_le (Nat.lt_of_succ_le bound) (inFront waiting member)
      exact fresh (passed.noted offered)

theorem ordered_next {fresh : List Text}
    (ordered : (chain :: queue).Pairwise fun chain later : List Text =>
      chain.length ≤ later.length ∧ later.length ≤ chain.length + 1) :
    (queue ++ fresh.map (· :: chain)).Pairwise fun chain later =>
      chain.length ≤ later.length ∧ later.length ≤ chain.length + 1 := by
  obtain ⟨front, rest⟩ := List.pairwise_cons.mp ordered
  have grown : ∀ longer ∈ fresh.map (· :: chain), longer.length = chain.length + 1 := by
    intro longer member
    obtain ⟨next, -, rfl⟩ := List.mem_map.mp member
    rfl
  refine List.pairwise_append.mpr ⟨rest, ?_, ?_⟩
  · apply List.pairwise_of_forall_mem_list
    intro first member second other
    rw [grown first member, grown second other]
    omega
  · intro waiting member longer new
    have near := front waiting member
    rw [grown longer new]
    omega

theorem step (searching : project.Searching source target ((path :: chain) :: queue) seen)
    (missed : path ≠ target) :
    let fresh := (project.importsOf path).filter fun next => !seen.elem next
    project.Searching source target (queue ++ fresh.map (· :: path :: chain)) (seen ++ fresh) := by
  intro fresh
  obtain ⟨other, shortest⟩ := searching.waiting _ List.mem_cons_self
  obtain rfl := shortest.trail.path_eq
  have new : ∀ next ∈ fresh, project.Shortest source next (next :: path :: chain) := by
    intro next member
    obtain ⟨listed, unseen⟩ := List.mem_filter.mp member
    exact searching.shortest_fresh shortest listed (by simpa using unseen)
  refine ⟨List.mem_append_left _ searching.started, ?_, ordered_next searching.ordered, ?_⟩
  · intro waiting member
    rcases List.mem_append.mp member with old | grown
    · exact searching.waiting waiting (List.mem_cons_of_mem _ old)
    · obtain ⟨next, listed, rfl⟩ := List.mem_map.mp grown
      exact ⟨next, new next listed⟩
  · intro other member
    rcases List.mem_append.mp member with old | added
    · rcases searching.settled other old with ⟨waiting, listed, best⟩ | passed
      · rcases List.mem_cons.mp listed with rfl | later
        · -- What waited in front has just been passed.
          obtain rfl := best.trail.path_eq
          refine .inr ⟨missed, fun next offered => ?_⟩
          by_cases known : next ∈ seen
          · exact List.mem_append_left _ known
          · exact List.mem_append_right _ (List.mem_filter.mpr ⟨offered, by simpa using known⟩)
        · exact .inl ⟨waiting, List.mem_append_left _ later, best⟩
      · exact .inr ⟨passed.missed, fun next offered =>
          List.mem_append_left _ (passed.noted offered)⟩
    · exact .inl ⟨_, List.mem_append_right _ (List.mem_map_of_mem added), new other added⟩

end Searching

/-- The outcome of a search: a shortest trail, or nothing if there is no trail. -/
def Answers (project : Project) (source target : Text) (found : List Text) : Prop :=
  project.Shortest source target found ∨
    found = [] ∧ ∀ chain, ¬ project.Trail source target chain

theorem answers_searchChain (fuel : Nat) (queue : List (List Text)) (seen : List Text)
    (searching : project.Searching source target queue seen)
    (fueled : project.Fueled source fuel queue seen) :
    project.Answers source target (project.searchChain target fuel queue seen) := by
  induction fuel generalizing queue seen with
  | zero => exact fueled.not_zero.elim
  | succ fuel induction =>
      match queue with
      | [] =>
          rw [searchChain]
          refine .inr ⟨rfl, fun chain trail => ?_⟩
          exact (searching.passed trail (by simp)).missed rfl
      | [] :: queue =>
          obtain ⟨path, shortest⟩ := searching.waiting [] List.mem_cons_self
          cases shortest.trail.head_eq
      | (path :: chain) :: queue =>
          rw [searchChain]
          split
          next met =>
            obtain ⟨other, shortest⟩ := searching.waiting _ List.mem_cons_self
            obtain rfl := shortest.trail.path_eq
            exact .inl (met ▸ shortest)
          next missed => exact induction _ _ (searching.step missed) (fueled.next path)

def Named (project : Project) : Prop := ∀ path, project.has path = true → path ≠ []

theorem named_of_paths (filled : ∀ path ∈ project.paths, path ≠ []) : project.Named :=
  fun path present => filled path ((mem_paths path).mpr present)

/-- The chain that is found for a file within reach is one, and none is shorter. -/
theorem importChain_shortest (named : project.Named) (present : project.has target = true)
    (reaches : project.Reaches source target) :
    project.Chain source target (project.importChain source target) ∧
      ∀ other, project.Chain source target other →
        (project.importChain source target).length ≤ other.length := by
  have start : project.Searching source target [[source]] [source] := searching_start source target
  have answers := answers_searchChain _ _ _ start (fueled_start source)
  rw [importChain]
  rcases answers with shortest | ⟨-, never⟩
  · have whole : (project.searchChain target (project.importCount + 2) [[source]] [source]).takeWhile
        (· ≠ []) = project.searchChain target (project.importCount + 2) [[source]] [source] := by
      rw [List.takeWhile_eq_self_iff]
      intro file member
      exact decide_eq_true (named file (shortest.trail.has_all present file member))
    simp only [whole]
    refine ⟨shortest.trail.chain_reverse present, fun other chained => ?_⟩
    have least := shortest.least _ chained.trail_reverse
    rwa [List.length_reverse] at least ⊢
  · obtain ⟨chain, chained⟩ := exists_chain reaches
    exact absurd chained.trail_reverse (never _)

end ScopeLint.Project
