import ScopeLint.Proofs.Project.Cycles

/-!
Cycles are never made up. While scopes are computed, every pending file leads to the file that is
being visited; so a file that is met again leads back to itself, and that is the file which the
complaint names. Together with the fact that no cycle is overlooked, the computation stops exactly
for the projects with a cycle.
-/

namespace ScopeLint.Project

variable {project : Project}

def OnCycle (project : Project) (path : Text) : Prop :=
  Relation.TransGen project.Imports path path

/-- A part of the computation that stops names a file on a cycle, as reports show it. -/
def Blames (project : Project) (result : Except Stopped ScopeProgress) : Prop :=
  ∀ stopped, result = .error stopped →
    project.OnCycle stopped.cycle.file ∧
      stopped.cycle.name = project.displayName stopped.cycle.file

theorem Blames.of_ok (progress : ScopeProgress) : project.Blames (.ok progress) := by
  intro stopped failed
  cases failed

theorem Blames.bind {result : Except Stopped ScopeProgress}
    {following : ScopeProgress → Except Stopped ScopeProgress} (first : project.Blames result)
    (second : ∀ progress, project.Blames (following progress)) :
    project.Blames (result >>= following) := by
  cases result with
  | error stopped =>
      intro other failed
      apply first other
      rw [← Except.error.inj failed]
  | ok progress => exact second progress

theorem blames_foldlM (visitNext : ScopeProgress → Text → Except Stopped ScopeProgress)
    (nexts : List Text) (progress : ScopeProgress)
    (each : ∀ progress, ∀ next ∈ nexts, project.Blames (visitNext progress next)) :
    project.Blames (nexts.foldlM visitNext progress) := by
  induction nexts generalizing progress with
  | nil => exact .of_ok progress
  | cons next rest induction =>
      rw [List.foldlM_cons]
      apply Blames.bind (each progress next List.mem_cons_self)
      intro middle
      apply induction
      intro progress other later
      exact each progress other (List.mem_cons_of_mem _ later)

theorem blames_visit (fuel : Nat) (pending : List Text) (progress : ScopeProgress) (path : Text)
    (leads : ∀ earlier ∈ pending, Relation.TransGen project.Imports earlier path) :
    project.Blames (visit project fuel pending progress path) := by
  induction fuel generalizing pending progress path with
  | zero => exact .of_ok progress
  | succ fuel induction =>
      rw [visit]
      split
      next => exact .of_ok progress
      next =>
        split
        next again =>
          -- The only complaint: the file is pending, and pending files lead here.
          intro stopped failed
          rw [← Except.error.inj failed]
          exact ⟨leads path (by simpa using again), rfl⟩
        next =>
          cases held : project.files.get? path with
          | none => exact .of_ok progress
          | some file =>
              apply Blames.bind
              · apply blames_foldlM
                intro progress next listed
                split
                next present =>
                  have step : project.Imports path next :=
                    (imports_iff held).mpr ⟨(Table.mem_keys _ _).mp listed, present⟩
                  apply induction
                  intro earlier member
                  rcases List.mem_cons.mp member with rfl | member
                  · exact .single step
                  · exact (leads earlier member).tail step
                next => exact .of_ok _
              · intro progress
                exact .of_ok _

theorem blames_scopes (project : Project) : project.Blames project.scopes := by
  apply blames_foldlM
  intro progress path _
  apply blames_visit
  intro earlier member
  cases member

/-- The computation of scopes stops exactly when some file is on a cycle of imports. The file it
then names is on one, and otherwise every file of the project, and no other, has a scope. -/
theorem scopes_stop_iff_cycle (project : Project) :
    ((∃ stopped, project.scopes = .error stopped) ↔ ∃ path, project.OnCycle path) ∧
      (∀ stopped, project.scopes = .error stopped →
        project.OnCycle stopped.cycle.file ∧
          stopped.cycle.name = project.displayName stopped.cycle.file) ∧
      ∀ progress, project.scopes = .ok progress →
        ∀ path, progress.scopes.contains path = project.has path := by
  refine ⟨⟨?_, ?_⟩, blames_scopes project, ?_⟩
  · rintro ⟨stopped, failed⟩
    exact ⟨stopped.cycle.file, (blames_scopes project stopped failed).1⟩
  · rintro ⟨path, loop⟩
    cases computed : project.scopes with
    | error stopped => exact ⟨stopped, rfl⟩
    | ok progress => exact absurd loop (acyclic_of_scopes computed path)
  · intro progress computed path
    obtain ⟨other, same, covered, -⟩ := scopes_fit (acyclic_of_scopes computed)
    rw [computed] at same
    rw [Except.ok.inj same]
    exact covered path

/-- The first file is on no cycle itself. It imports one that is absent and one that the others
share, and leads to two that import each other. -/
def roundabout : Project :=
  [sketch "entry" ["gone", "shared", "turn"] [], sketch "shared" [] ["Help"],
    sketch "turn" ["shared", "yield"] [], sketch "yield" ["shared", "turn"] []].foldl
    Project.put (Project.empty [])

theorem roundabout_scopes_stop :
    ∃ stopped, roundabout.scopes = .error stopped ∧
      stopped.cycle.file = Text.ofString "turn" ∧ roundabout.OnCycle (Text.ofString "turn") := by
  have named : (match roundabout.scopes with
      | .error stopped => stopped.cycle.file
      | .ok _ => []) = Text.ofString "turn" := by decide +kernel
  cases computed : roundabout.scopes with
  | ok progress =>
      rw [computed] at named
      cases named
  | error stopped =>
      rw [computed] at named
      have loop := ((scopes_stop_iff_cycle roundabout).2.1 stopped computed).1
      exact ⟨stopped, rfl, named, named ▸ loop⟩

end ScopeLint.Project
