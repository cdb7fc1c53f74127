import ScopeLint.Proofs.Outcome
import ScopeLint.Proofs.Project.Cycles
import ScopeLint.Proofs.Project.Reimport

/-!
The table of scopes as the solution of one equation: the scope of every file is put together from
the scopes that the table itself holds for its imports. The order in which files are visited is
thereby forgotten. The induction over the computation is done once, for anything that its steps
keep.
-/

namespace ScopeLint.Project

variable {project : Project} {Keeps : ScopeProgress → Prop}

def ScopeProgress.give (project : Project) (progress : ScopeProgress) (path : Text)
    (file : ProjectFile) : ScopeProgress :=
  let scope := Scope.assemble project file (file.importPaths.filterMap progress.scopes.get?)
  { progress with scopes := progress.scopes.insert path scope }

/-- What the steps of the computation keep: a note about an absent import, and the scope of a file
all of whose imports have theirs. -/
structure Kept (project : Project) (Keeps : ScopeProgress → Prop) : Prop where
  note : ∀ progress entry, Keeps progress →
    Keeps { progress with log := progress.log ++ [entry] }
  scope : ∀ progress path file, project.files.get? path = some file → Keeps progress →
    (∀ next ∈ file.importPaths, project.has next = true →
      progress.scopes.contains next = true) →
    Keeps (progress.give project path file)

section Visit

variable {fuel : Nat} {pending : List Text} {progress : ScopeProgress} {path next : Text}

/-- The step from a file to one of its imports. -/
theorem settles_next (present : project.has path = true) (settled : project.Settled progress)
    (distinct : (path :: pending).Nodup) (held : ∀ earlier ∈ pending, project.has earlier = true)
    (enough : project.files.size < fuel + (path :: pending).length) :
    project.Settles progress [next]
      (if project.has next then visit project fuel (path :: pending) progress next
        else .ok { progress with log := progress.log ++ [absentImport project path next] }) := by
  split
  next =>
    apply settles_visit _ _ _ _ settled distinct _ enough
    exact List.forall_mem_cons.mpr ⟨present, held⟩
  next absent =>
    intro after done
    obtain rfl := Except.ok.inj done
    refine ⟨settled, fun _ kept => kept, fun other listed held => ?_⟩
    exact absurd (List.mem_singleton.mp listed ▸ held) absent

theorem keeps_visit (kept : project.Kept Keeps) (fuel : Nat) (pending : List Text)
    (progress : ScopeProgress) (path : Text) (holds : Keeps progress)
    (settled : project.Settled progress) (distinct : pending.Nodup)
    (held : ∀ earlier ∈ pending, project.has earlier = true)
    (enough : project.files.size < fuel + pending.length) {after : ScopeProgress}
    (done : visit project fuel pending progress path = .ok after) : Keeps after := by
  induction fuel generalizing pending progress path after with
  | zero =>
      obtain rfl := Except.ok.inj done
      exact holds
  | succ fuel induction =>
      rw [visit] at done
      split at done
      next =>
        obtain rfl := Except.ok.inj done
        exact holds
      next =>
        split at done
        next => cases done
        next fresh =>
          split at done
          next =>
            obtain rfl := Except.ok.inj done
            exact holds
          next file there =>
            have present : project.has path = true := (has_iff path).mpr ⟨file, there⟩
            have apart : (path :: pending).Nodup := by
              apply List.nodup_cons.mpr
              exact ⟨by simpa using fresh, distinct⟩
            have deeper : project.files.size < fuel + (path :: pending).length := by
              rw [List.length_cons]
              omega
            obtain ⟨middle, visited, done⟩ := Except.exists_of_bind done
            obtain rfl := Except.ok.inj done
            have known := (settles_foldlM _ _ _ settled fun progress settled next _ =>
              settles_next present settled apart held deeper) middle visited
            -- Each import is visited in a table that is settled, so both facts go along.
            have both : Keeps middle ∧ project.Settled middle := by
              apply Except.foldlM_keeps _ _ _ ⟨holds, settled⟩ _ visited
              intro progress next after _ before step
              obtain ⟨holds, settled⟩ := before
              refine ⟨?_, (settles_next present settled apart held deeper after step).1⟩
              split at step
              next =>
                apply induction (path :: pending) progress next holds settled apart _ deeper step
                exact List.forall_mem_cons.mpr ⟨present, held⟩
              next =>
                obtain rfl := Except.ok.inj step
                exact kept.note progress _ holds
            exact kept.scope middle path file there both.1 known.2.2

end Visit

theorem settled_empty : project.Settled ⟨∅, []⟩ := by
  intro path member
  simp [Table.contains_iff] at member

theorem keeps_scopes (kept : project.Kept Keeps) (start : Keeps ⟨∅, []⟩) {progress : ScopeProgress}
    (computed : project.scopes = .ok progress) : Keeps progress := by
  have visits : ∀ progress path, project.Settled progress →
      project.Settles progress [path] (visit project (project.files.size + 1) [] progress path) :=
    fun progress path settled =>
      settles_visit _ _ _ _ settled List.nodup_nil (by simp) (by simp)
  have both : Keeps progress ∧ project.Settled progress := by
    apply Except.foldlM_keeps _ _ _ ⟨start, settled_empty⟩ _ computed
    intro progress path after _ ⟨holds, settled⟩ step
    refine ⟨?_, (visits progress path settled after step).1⟩
    exact keeps_visit kept _ _ _ _ holds settled List.nodup_nil (by simp) (by simp) step
  exact both.1

/-- Every scope that is looked up is the one that the others give its file. -/
def Assembled (project : Project) (lookup : Text → Option Scope) : Prop :=
  ∀ path scope, lookup path = some scope →
    ∃ file, project.files.get? path = some file ∧
      (∀ next ∈ file.importPaths, project.has next = true → (lookup next).isSome) ∧
      scope = Scope.assemble project file (file.importPaths.filterMap lookup)

section Give

variable {progress : ScopeProgress} {path : Text} {file : ProjectFile}

theorem get_give (other : Text) :
    (progress.give project path file).scopes.get? other = if other = path
      then some (Scope.assemble project file (file.importPaths.filterMap progress.scopes.get?))
      else progress.scopes.get? other :=
  Table.get_insert ..

/-- A file that has its scope already gets the same one again. -/
theorem get_give_again (held : project.files.get? path = some file)
    (assembled : project.Assembled progress.scopes.get?)
    (again : (progress.scopes.get? path).isSome) :
    (progress.give project path file).scopes.get? = progress.scopes.get? := by
  obtain ⟨scope, found⟩ := Option.isSome_iff_exists.mp again
  obtain ⟨twin, heldTwin, -, rfl⟩ := assembled path scope found
  obtain rfl := Option.some.inj (held.symm.trans heldTwin)
  funext other
  rw [get_give]
  split
  next same => rw [same, found]
  next => rfl

theorem assembled_give (acyclic : project.Acyclic) (held : project.files.get? path = some file)
    (assembled : project.Assembled progress.scopes.get?)
    (known : ∀ next ∈ file.importPaths, project.has next = true →
      (progress.scopes.get? next).isSome) :
    project.Assembled (progress.give project path file).scopes.get? := by
  by_cases again : (progress.scopes.get? path).isSome
  · rw [get_give_again held assembled again]
    exact assembled
  -- The new scope is used by no file that has its own, and not by its own file.
  have elsewhere : ∀ nexts : List Text, path ∉ nexts →
      nexts.filterMap (progress.give project path file).scopes.get? =
        nexts.filterMap progress.scopes.get? := by
    intro nexts apart
    apply List.filterMap_congr
    intro next listed
    rw [get_give, if_neg (ne_of_mem_of_not_mem listed apart)]
  have kept : ∀ next, (progress.scopes.get? next).isSome →
      ((progress.give project path file).scopes.get? next).isSome := by
    intro next before
    rw [get_give]
    split
    next => rfl
    next => exact before
  intro other scope found
  rw [get_give] at found
  split at found
  next same =>
    obtain rfl := Option.some.inj found
    rw [same]
    refine ⟨file, held, fun next listed present => kept next (known next listed present), ?_⟩
    rw [elsewhere]
    intro listed
    exact acyclic.not_contains_self held ((Table.mem_keys _ _).mp listed)
  next =>
    obtain ⟨owner, heldOwner, knownOwner, rfl⟩ := assembled other scope found
    refine ⟨owner, heldOwner,
      fun next listed present => kept next (knownOwner next listed present), ?_⟩
    rw [elsewhere]
    intro listed
    exact again (knownOwner path listed ((has_iff path).mpr ⟨file, held⟩))

end Give

/-- The scopes of an acyclic project, each put together from those of the imports. -/
theorem assembled_scopes (acyclic : project.Acyclic) {progress : ScopeProgress}
    (computed : project.scopes = .ok progress) : project.Assembled progress.scopes.get? := by
  have kept : project.Kept fun progress => project.Assembled progress.scopes.get? :=
    { note := fun _ _ assembled => assembled
      scope := fun _ _ _ held assembled known => assembled_give acyclic held assembled known }
  apply keeps_scopes kept _ computed
  intro path scope found
  simp at found

end ScopeLint.Project
