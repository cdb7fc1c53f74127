import Mathlib.Data.List.Induction
import Mathlib.Data.List.Perm.Basic
import Mathlib.Data.Nat.Find
import ScopeLint.Proofs.Table
import ScopeLint.Watcher

/-!
Gathering changes while flushes come at any time. A flush takes the pending paths in one step and
reports them in a later one, so that other paths can be scheduled and other flushes can take in
between. Every path that is scheduled goes to the first flush that takes after it, and to no other.
-/

namespace ScopeLint.Watcher

/-- What can come next. Several batches may wait to be reported, and any of them may be the next. -/
inductive Event where
  | schedule (path : Text)
  | take
  | report (index : Nat)
  deriving DecidableEq

/-- A watcher with all batches that were taken, those of them that still wait, and the others. -/
structure Batching where
  watcher : Watcher
  taken : List (List Text)
  waiting : List (List Text)
  reported : List (List Text)

namespace Batching

def start (watcher : Watcher) : Batching := ⟨{ watcher with pending := ∅ }, [], [], []⟩

def step (state : Batching) : Event → Batching
  | .schedule path => { state with watcher := state.watcher.schedule path }
  | .take =>
      let (watcher, batch) := state.watcher.takeBatch
      { state with
        watcher
        taken := state.taken ++ batch.toList
        waiting := state.waiting ++ batch.toList }
  | .report index =>
      match state.waiting[index]? with
      | none => state
      | some batch =>
          { state with
            waiting := state.waiting.eraseIdx index
            reported := state.reported ++ [batch] }

def after (watcher : Watcher) (events : List Event) : Batching := events.foldl step (start watcher)

def takenAt (watcher : Watcher) (events : List Event) (index : Nat) : Option (List Text) :=
  if events[index]? = some .take then (after watcher (events.take index)).watcher.takeBatch.2
  else none

/-- The first flush behind a place of the history. -/
structure FirstTake (events : List Event) (index later : Nat) : Prop where
  behind : index < later
  takes : events[later]? = some .take
  first : ∀ between, index < between → between < later → events[between]? ≠ some .take

variable {watcher : Watcher} {events : List Event}

theorem after_append (event : Event) :
    after watcher (events ++ [event]) = (after watcher events).step event := by
  simp [after]

theorem FirstTake.unique {index later other : Nat} (first : FirstTake events index later)
    (second : FirstTake events index other) : other = later := by
  rcases Nat.lt_trichotomy other later with less | same | more
  · exact absurd second.takes (first.first other second.behind less)
  · exact same
  · exact absurd first.takes (second.first later first.behind more)

theorem exists_firstTake {index later : Nat} (behind : index < later)
    (takes : events[later]? = some .take) : ∃ first, FirstTake events index first := by
  classical
  have taking : ∃ place, index < place ∧ events[place]? = some Event.take := ⟨later, behind, takes⟩
  refine ⟨Nat.find taking, (Nat.find_spec taking).1, (Nat.find_spec taking).2, ?_⟩
  intro between above below taken
  exact Nat.find_min taking below ⟨above, taken⟩

/-- A path was scheduled and no flush has taken since. -/
def Waits (events : List Event) (path : Text) : Prop :=
  ∃ index : Nat, events[index]? = some (.schedule path) ∧
    ∀ later, index < later → events[later]? ≠ some .take

theorem waits_nil (path : Text) : ¬ Waits [] path := by
  rintro ⟨index, scheduled, -⟩
  cases scheduled

theorem waits_append (event : Event) (path : Text) :
    Waits (events ++ [event]) path ↔
      event = .schedule path ∨ event ≠ .take ∧ Waits events path := by
  have last : (events ++ [event])[events.length]? = some event := by simp
  have earlier (index : Nat) (below : index < events.length) :
      (events ++ [event])[index]? = events[index]? := List.getElem?_append_left below
  have beyond (index : Nat) (above : events.length < index) :
      (events ++ [event])[index]? = none := by
    apply List.getElem?_eq_none
    simp only [List.length_append, List.length_singleton]
    omega
  constructor
  · rintro ⟨index, scheduled, untaken⟩
    rcases Nat.lt_trichotomy index events.length with inside | rfl | above
    · rw [earlier index inside] at scheduled
      refine .inr ⟨?_, index, scheduled, ?_⟩
      · rintro rfl
        exact untaken events.length inside last
      · intro later behind takes
        have below : later < events.length := (List.getElem?_eq_some_iff.mp takes).1
        exact untaken later behind (by rw [earlier later below, takes])
    · rw [last] at scheduled
      exact .inl (Option.some.inj scheduled)
    · rw [beyond index above] at scheduled
      cases scheduled
  · rintro (rfl | ⟨other, index, scheduled, untaken⟩)
    · refine ⟨events.length, last, ?_⟩
      intro later behind
      rw [beyond later behind]
      exact nofun
    · have inside : index < events.length := (List.getElem?_eq_some_iff.mp scheduled).1
      refine ⟨index, by rw [earlier index inside, scheduled], ?_⟩
      intro later behind takes
      rcases Nat.lt_trichotomy later events.length with below | rfl | above
      · rw [earlier later below] at takes
        exact untaken later behind takes
      · rw [last] at takes
        exact other (Option.some.inj takes)
      · rw [beyond later above] at takes
        cases takes

theorem mem_pending_schedule (path other : Text) :
    other ∈ (watcher.schedule path).pendingPaths ↔ other = path ∨ other ∈ watcher.pendingPaths := by
  simp only [pendingPaths, schedule, Table.mem_keys, Table.contains_iff, Table.get_insert]
  by_cases same : other = path <;> simp [same]

theorem not_mem_pending_takeBatch (path : Text) : path ∉ watcher.takeBatch.1.pendingPaths := nofun

theorem watcher_step_report (state : Batching) (index : Nat) :
    (state.step (.report index)).watcher = state.watcher := by
  simp only [step]
  split <;> rfl

theorem mem_pending_iff (events : List Event) (path : Text) :
    path ∈ (after watcher events).watcher.pendingPaths ↔ Waits events path := by
  induction events using List.reverseRecOn with
  | nil =>
      apply iff_of_false _ (waits_nil path)
      exact nofun
  | append_singleton events event induction =>
      rw [waits_append, after_append, ← induction]
      cases event with
      | schedule other =>
          change path ∈ ((after watcher events).watcher.schedule other).pendingPaths ↔ _
          rw [mem_pending_schedule]
          simp [eq_comm]
      | take =>
          apply iff_of_false (not_mem_pending_takeBatch path)
          simp
      | report index =>
          rw [watcher_step_report]
          simp

theorem takeBatch_eq_some {batch : List Text} :
    watcher.takeBatch.2 = some batch ↔ batch = watcher.pendingPaths ∧ batch ≠ [] := by
  simp only [takeBatch, pendingPaths]
  split
  next isEmpty =>
    have empty : watcher.pending.keys = [] := List.isEmpty_iff.mp isEmpty
    simp [empty]
  next notEmpty =>
    have kept : watcher.pending.keys ≠ [] := fun empty => notEmpty (List.isEmpty_iff.mpr empty)
    constructor
    · intro same
      obtain rfl := Option.some.inj same
      exact ⟨rfl, kept⟩
    · rintro ⟨rfl, -⟩
      rfl

theorem takenAt_eq_some {index : Nat} {batch : List Text} :
    takenAt watcher events index = some batch ↔ events[index]? = some .take ∧
      batch = (after watcher (events.take index)).watcher.pendingPaths ∧ batch ≠ [] := by
  unfold takenAt
  split
  next takes => simp [takes, takeBatch_eq_some]
  next other => simp [other]

theorem waits_take_iff {index later : Nat} {path : Text} (takes : events[later]? = some .take) :
    ((events.take later)[index]? = some (.schedule path) ∧
        ∀ between, index < between → (events.take later)[between]? ≠ some .take) ↔
      events[index]? = some (.schedule path) ∧ FirstTake events index later := by
  simp only [List.getElem?_take]
  constructor
  · rintro ⟨scheduled, untaken⟩
    split at scheduled
    next below =>
      refine ⟨scheduled, below, takes, ?_⟩
      intro between above inside
      have kept := untaken between above
      rwa [if_pos inside] at kept
    next => cases scheduled
  · rintro ⟨scheduled, first⟩
    refine ⟨by rw [if_pos first.behind, scheduled], ?_⟩
    intro between above
    split
    next inside => exact first.first between above inside
    next => exact nofun

/-- A flush finds the paths for which it is the first one behind their being scheduled. -/
theorem mem_pending_take {later : Nat} (takes : events[later]? = some .take) (path : Text) :
    path ∈ (after watcher (events.take later)).watcher.pendingPaths ↔
      ∃ index : Nat, events[index]? = some (.schedule path) ∧ FirstTake events index later := by
  rw [mem_pending_iff, Waits]
  apply exists_congr
  intro index
  exact waits_take_iff takes

theorem mem_takenAt {later : Nat} {batch : List Text}
    (taken : takenAt watcher events later = some batch) (path : Text) :
    path ∈ batch ↔ ∃ index : Nat, events[index]? = some (.schedule path) ∧
      FirstTake events index later := by
  obtain ⟨takes, rfl, -⟩ := takenAt_eq_some.mp taken
  exact mem_pending_take takes path

theorem exists_takenAt {index later : Nat} {path : Text}
    (scheduled : events[index]? = some (.schedule path)) (first : FirstTake events index later) :
    ∃ batch, takenAt watcher events later = some batch ∧ path ∈ batch := by
  have pending : path ∈ (after watcher (events.take later)).watcher.pendingPaths :=
    (mem_pending_take first.takes path).mpr ⟨index, scheduled, first⟩
  exact ⟨_, takenAt_eq_some.mpr ⟨first.takes, rfl, List.ne_nil_of_mem pending⟩, pending⟩

theorem taken_eq (events : List Event) :
    (after watcher events).taken =
      (List.range events.length).filterMap (takenAt watcher events) := by
  induction events using List.reverseRecOn with
  | nil => rfl
  | append_singleton events event induction =>
      have before : (List.range events.length).filterMap (takenAt watcher (events ++ [event])) =
          (List.range events.length).filterMap (takenAt watcher events) := by
        apply List.filterMap_congr
        intro index member
        have below : index < events.length := List.mem_range.mp member
        rw [takenAt, takenAt, List.getElem?_append_left below,
          List.take_append_of_le_length (Nat.le_of_lt below)]
      rw [List.length_append, List.length_singleton, List.range_succ, List.filterMap_append, before,
        ← induction, after_append]
      have own : takenAt watcher (events ++ [event]) events.length =
          if event = .take then (after watcher events).watcher.takeBatch.2 else none := by
        simp [takenAt]
      cases event with
      | take =>
          simp only [step, List.filterMap_cons, List.filterMap_nil, own, if_pos]
          cases (after watcher events).watcher.takeBatch.2 <;> rfl
      | schedule path => simp [step, own]
      | report index =>
          simp only [step, List.filterMap_cons, List.filterMap_nil, own]
          split <;> simp

theorem mem_taken {batch : List Text} :
    batch ∈ (after watcher events).taken ↔ ∃ later, takenAt watcher events later = some batch := by
  rw [taken_eq, List.mem_filterMap]
  apply exists_congr
  intro later
  apply and_iff_right_of_imp
  intro taken
  obtain ⟨takes, -, -⟩ := takenAt_eq_some.mp taken
  exact List.mem_range.mpr (List.getElem?_eq_some_iff.mp takes).1

theorem sorted_pendingPaths (watcher : Watcher) : watcher.pendingPaths.Pairwise (· < ·) :=
  List.pairwise_map.mpr watcher.pending.increasing

theorem sorted_of_takenAt {later : Nat} {batch : List Text}
    (taken : takenAt watcher events later = some batch) : batch ≠ [] ∧ batch.Pairwise (· < ·) := by
  obtain ⟨-, rfl, nonempty⟩ := takenAt_eq_some.mp taken
  exact ⟨nonempty, sorted_pendingPaths _⟩

/-- A scheduled path is taken by the first flush behind, and is pending where there is none. -/
theorem taken_or_pending {index : Nat} {path : Text}
    (scheduled : events[index]? = some (.schedule path)) :
    (∃! later, FirstTake events index later ∧
        ∃ batch, takenAt watcher events later = some batch ∧ path ∈ batch) ∨
      (∀ later, ¬ FirstTake events index later) ∧
        path ∈ (after watcher events).watcher.pendingPaths := by
  by_cases taking : ∃ later, FirstTake events index later
  · obtain ⟨later, first⟩ := taking
    exact .inl ⟨later, ⟨first, exists_takenAt scheduled first⟩, fun other held => first.unique held.1⟩
  · refine .inr ⟨not_exists.mp taking, (mem_pending_iff events path).mpr ⟨index, scheduled, ?_⟩⟩
    intro later behind takes
    exact taking (exists_firstTake behind takes)

theorem perm_step (state : Batching) (event : Event)
    (perm : state.taken.Perm (state.reported ++ state.waiting)) :
    (state.step event).taken.Perm ((state.step event).reported ++ (state.step event).waiting) := by
  cases event with
  | schedule path => exact perm
  | take =>
      simp only [step]
      rw [← List.append_assoc]
      exact perm.append_right _
  | report index =>
      simp only [step]
      split
      next => exact perm
      next batch waits =>
        obtain ⟨below, rfl⟩ := List.getElem?_eq_some_iff.mp waits
        apply perm.trans
        rw [List.append_assoc]
        apply List.Perm.append_left
        exact (List.getElem_cons_eraseIdx_perm below).symm

/-- Every batch that was taken waits or was reported, once. -/
theorem perm_after (events : List Event) :
    (after watcher events).taken.Perm
      ((after watcher events).reported ++ (after watcher events).waiting) := by
  induction events using List.reverseRecOn with
  | nil => exact .nil
  | append_singleton events event induction =>
      rw [after_append]
      exact perm_step _ event induction

/-- No change is lost or reported twice, in whatever order paths are scheduled, flushes take and
their batches are reported. A reported batch has paths, each once and in order. What was scheduled
is what was taken or is pending, and every batch that was taken is reported at most once. Where a
path was scheduled, either one flush took it, the first one behind, or none has come and the path
is pending; and a flush took nothing else. -/
theorem batches_account (watcher : Watcher) (events : List Event) :
    let state := after watcher events
    (∀ batch ∈ state.reported, batch ≠ [] ∧ batch.Pairwise (· < ·) ∧ batch.Nodup) ∧
    state.taken = (List.range events.length).filterMap (takenAt watcher events) ∧
    state.taken.Perm (state.reported ++ state.waiting) ∧
    (∀ path, ((∃ batch ∈ state.taken, path ∈ batch) ∨ path ∈ state.watcher.pendingPaths) ↔
      .schedule path ∈ events) ∧
    (∀ (index : Nat) path, events[index]? = some (.schedule path) →
      (∃! later, FirstTake events index later ∧
        ∃ batch, takenAt watcher events later = some batch ∧ path ∈ batch) ∨
      (∀ later, ¬ FirstTake events index later) ∧ path ∈ state.watcher.pendingPaths) ∧
    ∀ later batch, takenAt watcher events later = some batch → ∀ path ∈ batch,
      ∃ index : Nat, events[index]? = some (.schedule path) ∧ FirstTake events index later := by
  intro state
  have perm : state.taken.Perm _ := perm_after events
  refine ⟨?_, taken_eq events, perm, ?_, fun index path => taken_or_pending, ?_⟩
  · intro batch member
    have given : batch ∈ state.taken := perm.mem_iff.mpr (List.mem_append_left _ member)
    obtain ⟨later, taken⟩ := mem_taken.mp given
    obtain ⟨nonempty, sorted⟩ := sorted_of_takenAt taken
    refine ⟨nonempty, sorted, sorted.imp ?_⟩
    rintro left right below rfl
    exact List.lt_irrefl _ below
  · intro path
    constructor
    · rintro (⟨batch, member, inside⟩ | pending)
      · obtain ⟨later, taken⟩ := mem_taken.mp member
        obtain ⟨index, scheduled, -⟩ := (mem_takenAt taken path).mp inside
        exact List.mem_of_getElem? scheduled
      · obtain ⟨index, scheduled, -⟩ := (mem_pending_iff events path).mp pending
        exact List.mem_of_getElem? scheduled
    · intro member
      obtain ⟨index, scheduled⟩ := List.mem_iff_getElem?.mp member
      rcases taken_or_pending scheduled with ⟨later, ⟨first, batch, taken, inside⟩, -⟩ | waits
      · exact .inl ⟨batch, mem_taken.mpr ⟨later, taken⟩, inside⟩
      · exact .inr waits.2
  · intro later batch taken path inside
    exact (mem_takenAt taken path).mp inside

end Batching

end ScopeLint.Watcher
