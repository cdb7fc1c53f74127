import ScopeLint.Proofs.Project.Scopes

/-!
Cycles are never overlooked. When the computation of scopes comes to an end without a complaint,
every file whose scope it holds is one from which all chains of imports end, and every file has
such a scope; so the project has no cycle.
-/

namespace ScopeLint.Project

variable {project : Project}

def Ends (project : Project) (path : Text) : Prop :=
  Acc (fun next path => project.Imports path next) path

def Settled (project : Project) (progress : ScopeProgress) : Prop :=
  ∀ path, progress.scopes.contains path = true → project.Ends path

/-- A part of the computation that succeeds keeps what is known settled, takes no scope away and
adds one for every file that was wanted. -/
def Settles (project : Project) (before : ScopeProgress) (wanted : List Text)
    (result : Except Stopped ScopeProgress) : Prop :=
  ∀ after, result = .ok after → project.Settled after ∧
    (∀ path, before.scopes.contains path = true → after.scopes.contains path = true) ∧
    ∀ path ∈ wanted, project.has path = true → after.scopes.contains path = true

theorem Settles.unchanged {progress : ScopeProgress} (settled : project.Settled progress)
    {wanted : List Text}
    (known : ∀ path ∈ wanted, project.has path = true → progress.scopes.contains path = true) :
    project.Settles progress wanted (.ok progress) := by
  intro after same
  obtain rfl := Except.ok.inj same
  exact ⟨settled, fun _ kept => kept, known⟩

theorem settles_foldlM (visitNext : ScopeProgress → Text → Except Stopped ScopeProgress)
    (nexts : List Text) (progress : ScopeProgress) (settled : project.Settled progress)
    (each : ∀ progress, project.Settled progress → ∀ next ∈ nexts,
      project.Settles progress [next] (visitNext progress next)) :
    project.Settles progress nexts (nexts.foldlM visitNext progress) := by
  induction nexts generalizing progress with
  | nil => exact .unchanged settled (by simp)
  | cons next rest induction =>
      intro after done
      rw [List.foldlM_cons] at done
      cases first : visitNext progress next with
      | error stopped =>
          rw [first] at done
          cases done
      | ok middle =>
          rw [first] at done
          have head := each progress settled next List.mem_cons_self middle first
          have tail := induction middle head.1
            (fun progress settled other member =>
              each progress settled other (List.mem_cons_of_mem _ member)) after done
          refine ⟨tail.1, fun path known => tail.2.1 path (head.2.1 path known), ?_⟩
          intro path member present
          rcases List.mem_cons.mp member with rfl | later
          · exact tail.2.1 path (head.2.2 path List.mem_cons_self present)
          · exact tail.2.2 path later present

/-- The last step of a visit: the chains of a file end because those of its imports do. -/
theorem settles_insert {progress : ScopeProgress} {path : Text} {file : ProjectFile}
    (held : project.files.get? path = some file) {visited : Except Stopped ScopeProgress}
    (settles : project.Settles progress file.importPaths visited) (scopeOf : ScopeProgress → Scope) :
    project.Settles progress [path] do
      let progress ← visited
      return { progress with scopes := progress.scopes.insert path (scopeOf progress) } := by
  intro after done
  cases visited with
  | error stopped => cases done
  | ok middle =>
      obtain ⟨settled, kept, known⟩ := settles middle rfl
      obtain rfl := Except.ok.inj done
      have contains_insert (other : Text) :
          (middle.scopes.insert path (scopeOf middle)).contains other = true ↔
            other = path ∨ middle.scopes.contains other = true := by
        simp only [Table.contains_iff, Table.get_insert]
        by_cases same : other = path <;> simp [same]
      refine ⟨?_, ?_, ?_⟩
      · intro other member
        rcases (contains_insert other).mp member with rfl | earlier
        · constructor
          intro next step
          have listed := (Table.mem_keys _ _).mpr ((imports_iff held).mp step).1
          exact settled next (known next listed step.has_next)
        · exact settled other earlier
      · intro other member
        exact (contains_insert other).mpr (.inr (kept other member))
      · intro other member _
        exact (contains_insert other).mpr (.inl (List.mem_singleton.mp member))

/-- One visit. A file that is met while it is pending stops the computation, so the pending files
stay distinct and the fuel lasts. -/
theorem settles_visit (fuel : Nat) (pending : List Text) (progress : ScopeProgress) (path : Text)
    (settled : project.Settled progress) (distinct : pending.Nodup)
    (present : ∀ earlier ∈ pending, project.has earlier = true)
    (enough : project.files.size < fuel + pending.length) :
    project.Settles progress [path] (visit project fuel pending progress path) := by
  induction fuel generalizing pending progress path with
  | zero =>
      have bound := length_le_files distinct present
      omega
  | succ fuel induction =>
      rw [visit]
      split
      next known => exact .unchanged settled (by simpa using fun _ => known)
      next unknown =>
        split
        next again =>
          intro after done
          cases done
        next fresh =>
          have apart : path ∉ pending := by simpa using fresh
          cases held : project.files.get? path with
          | none =>
              refine .unchanged settled ?_
              intro other member stands
              obtain ⟨file, found⟩ := (has_iff other).mp stands
              rw [List.mem_singleton.mp member, held] at found
              cases found
          | some file =>
              apply settles_insert held
              apply settles_foldlM _ _ _ settled
              intro progress settled next member
              have here : project.has path = true := (has_iff path).mpr ⟨file, held⟩
              split
              next =>
                apply induction (path :: pending) progress next settled
                · exact List.nodup_cons.mpr ⟨apart, distinct⟩
                · exact List.forall_mem_cons.mpr ⟨here, present⟩
                · simp only [List.length_cons]
                  omega
              next absent =>
                intro after done
                obtain rfl := Except.ok.inj done
                refine ⟨settled, fun _ kept => kept, ?_⟩
                intro other listed stands
                exact absurd (List.mem_singleton.mp listed ▸ stands) absent

theorem Ends.not_transGen {path : Text} (ends : project.Ends path) :
    ¬ Relation.TransGen project.Imports path path := by
  induction ends with
  | intro path _ induction =>
      intro loop
      obtain ⟨next, step, chain⟩ := Relation.TransGen.head'_iff.mp loop
      exact induction next step (Relation.TransGen.tail' chain step)

/-- A project whose scopes can be computed has no cycle of imports. -/
theorem acyclic_of_scopes {progress : ScopeProgress} (computed : project.scopes = .ok progress) :
    project.Acyclic := by
  have empty : project.Settled ⟨∅, []⟩ := by
    intro path member
    simp [Table.contains_iff] at member
  have settles := settles_foldlM (visit project (project.files.size + 1) []) project.paths _ empty
    (fun progress settled next _ => settles_visit _ [] progress next settled List.nodup_nil
      (by simp) (by simp))
  obtain ⟨settled, -, known⟩ := settles progress computed
  intro path loop
  obtain ⟨next, step, -⟩ := Relation.TransGen.head'_iff.mp loop
  have reached := known path ((mem_paths path).mpr step.has_path) step.has_path
  exact (settled path reached).not_transGen loop

end ScopeLint.Project
