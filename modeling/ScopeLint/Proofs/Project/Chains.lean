import ScopeLint.Proofs.Project.Imports

/-!
The search for a chain of imports. It puts every path in its queue at most once, so its fuel lasts
until the target is met or nothing is left to look at; and it looks only at what its first file
leads to, so two projects that agree there find the same chain.
-/

namespace ScopeLint.Project

variable {project left right : Project} {source target path : Text} {fuel : Nat}
  {queue : List (List Text)} {seen chain : List Text}

theorem nodup_importsOf (path : Text) : (project.importsOf path).Nodup := by
  rw [importsOf]
  cases project.files.get? path with
  | none => exact List.nodup_nil
  | some file => exact file.imports.nodup_keys

def importedPaths (project : Project) : List Text :=
  project.files.values.flatMap ProjectFile.importPaths

theorem length_importedPaths : project.importedPaths.length = project.importCount := by
  rw [importedPaths, importCount]
  induction project.files.values with
  | nil => rfl
  | cons file rest induction =>
      rw [List.flatMap_cons, List.length_append, induction, List.foldr_cons]
      simp [ProjectFile.importPaths, Table.keys, Table.size]

theorem importsOf_subset (path : Text) : project.importsOf path ⊆ project.importedPaths := by
  intro next listed
  cases held : project.files.get? path with
  | none => simp [importsOf, held] at listed
  | some file =>
      rw [importsOf_get held] at listed
      apply List.mem_flatMap.mpr
      exact ⟨file, (Table.mem_values _ _).mpr ⟨path, held⟩, listed⟩

/-- A search that started at `source` and has fuel for every path that it has not met yet. -/
structure Fueled (project : Project) (source : Text) (fuel : Nat) (queue : List (List Text))
    (seen : List Text) : Prop where
  distinct : seen.Nodup
  known : seen ⊆ source :: project.importedPaths
  enough : queue.length + project.importCount + 1 < fuel + seen.length

theorem fueled_start (source : Text) :
    project.Fueled source (project.importCount + 2) [[source]] [source] where
  distinct := List.nodup_singleton source
  known := by simp
  enough := by
    simp only [List.length_singleton]
    omega

theorem Fueled.not_zero (fueled : project.Fueled source 0 queue seen) : False := by
  have met := (fueled.distinct.subperm fueled.known).length_le
  have enough := fueled.enough
  rw [List.length_cons, length_importedPaths] at met
  omega

theorem Fueled.next (fueled : project.Fueled source (fuel + 1) (chain :: queue) seen)
    (path : Text) :
    let fresh := (project.importsOf path).filter fun next => !seen.elem next
    project.Fueled source fuel (queue ++ fresh.map (· :: chain)) (seen ++ fresh) := by
  intro fresh
  constructor
  · apply fueled.distinct.append ((nodup_importsOf path).filter _)
    intro next old new
    have unseen := (List.mem_filter.mp new).2
    simp [old] at unseen
  · apply List.append_subset.mpr
    refine ⟨fueled.known, fun next new => List.mem_cons_of_mem _ ?_⟩
    exact importsOf_subset path (List.mem_filter.mp new).1
  · have enough := fueled.enough
    simp only [List.length_append, List.length_map, List.length_cons] at enough ⊢
    omega

theorem Fueled.drop (fueled : project.Fueled source (fuel + 1) (chain :: queue) seen) :
    project.Fueled source fuel queue seen where
  distinct := fueled.distinct
  known := fueled.known
  enough := by
    have enough := fueled.enough
    simp only [List.length_cons] at enough
    omega

/-- Paths that lead only to one another, with the same imports in both projects. -/
structure SharedImports (left right : Project) (region : Text → Prop) : Prop where
  closed : ∀ path, region path → ∀ next ∈ left.importsOf path, region next
  same : ∀ path, region path → left.importsOf path = right.importsOf path

/-- Two searches that see the same take the same steps, however much fuel they have left. -/
theorem searchChain_congr {region : Text → Prop} (shared : SharedImports left right region)
    (target : Text) (fuel other : Nat) (queue : List (List Text)) (seen : List Text)
    (inside : ∀ chain ∈ queue, ∀ path ∈ chain.head?, region path)
    (fueled : left.Fueled source fuel queue seen) (refueled : right.Fueled source other queue seen) :
    left.searchChain target fuel queue seen = right.searchChain target other queue seen := by
  induction fuel generalizing other queue seen with
  | zero => exact fueled.not_zero.elim
  | succ fuel induction =>
      cases other with
      | zero => exact refueled.not_zero.elim
      | succ other =>
          match queue with
          | [] => rw [searchChain, searchChain]
          | [] :: queue =>
              rw [searchChain, searchChain]
              apply induction other queue seen _ fueled.drop refueled.drop
              exact fun chain listed => inside chain (List.mem_cons_of_mem _ listed)
          | (path :: chain) :: queue =>
              have here : region path := inside _ List.mem_cons_self path rfl
              have refueled := refueled.next path
              rw [← shared.same path here] at refueled
              rw [searchChain, searchChain, ← shared.same path here]
              split
              next => rfl
              next =>
                apply induction other _ _ _ (fueled.next path) refueled
                intro longer listed first head
                rcases List.mem_append.mp listed with old | new
                · exact inside longer (List.mem_cons_of_mem _ old) first head
                · obtain ⟨next, fresh, rfl⟩ := List.mem_map.mp new
                  obtain rfl := Option.some.inj head
                  exact shared.closed path here _ (List.mem_filter.mp fresh).1

/-- Chains from a path depend on nothing but the imports of what it leads to. -/
theorem importChain_congr {region : Text → Prop} (shared : SharedImports left right region)
    (here : region source) (target : Text) :
    left.importChain source target = right.importChain source target := by
  rw [importChain, importChain]
  have same : left.searchChain target (left.importCount + 2) [[source]] [source] =
      right.searchChain target (right.importCount + 2) [[source]] [source] := by
    apply searchChain_congr shared _ _ _ _ _ _ (fueled_start source) (fueled_start source)
    intro chain listed path head
    obtain rfl := List.mem_singleton.mp listed
    obtain rfl := Option.some.inj head
    exact here
  simp only [same]

end ScopeLint.Project
