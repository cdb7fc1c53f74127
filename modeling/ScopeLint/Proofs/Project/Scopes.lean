import Mathlib.Data.List.Forall2
import ScopeLint.Proofs.Project.Visibility

/-!
The computation of scopes against plain visibility. Scopes are computed depth first and kept in
a table, so one has to know that whatever is in the table is right, that nothing leaves it, and
that neither the fuel nor an import that leads back can stop the computation of an acyclic
project. From there on scopes may be thought of as visibility.
-/

namespace ScopeLint

namespace Scope

/-- Defining items one after the other keeps, for every key, the first item with that key. -/
theorem find_foldl_define (key : Key) (items known : List (Key × Origin)) :
    ((items.foldl define known).find? fun item => item.1 = key) =
      (known.find? fun item => item.1 = key).or (items.find? fun item => item.1 = key) := by
  induction items generalizing known with
  | nil => simp
  | cons item rest induction =>
      rw [List.foldl_cons, induction, define]
      split
      next duplicate =>
        -- A key that is already known hides the item, and then it would not be found either.
        by_cases same : item.1 = key
        · obtain ⟨other, member, equal⟩ := List.any_eq_true.mp duplicate
          have found : (known.find? fun item => item.1 = key).isSome := by
            rw [List.find?_isSome]
            exact ⟨other, member, by simpa [same] using equal⟩
          obtain ⟨first, found⟩ := Option.isSome_iff_exists.mp found
          simp [found]
        · simp [same]
      next => rw [List.find?_append, Option.or_assoc, ← List.find?_append, List.singleton_append]

theorem nodup_foldl_define (items known : List (Key × Origin))
    (distinct : (known.map Prod.fst).Nodup) : ((items.foldl define known).map Prod.fst).Nodup := by
  induction items generalizing known with
  | nil => exact distinct
  | cons item rest induction =>
      apply induction
      rw [define]
      split
      next => exact distinct
      next fresh =>
        have absent : item.1 ∉ known.map Prod.fst := by
          intro member
          obtain ⟨other, member, same⟩ := List.mem_map.mp member
          exact fresh (List.any_eq_true.mpr ⟨other, member, by simpa using same⟩)
        rw [List.map_append]
        refine List.nodup_append.mpr ⟨distinct, List.nodup_singleton _, ?_⟩
        intro key member other single same
        rw [same, List.mem_singleton.mp single] at member
        exact absent member

theorem find_of_mem {scope : Scope} (distinct : (scope.items.map Prod.fst).Nodup)
    {item : Key × Origin} (member : item ∈ scope.items) : scope.find? item.1 = some item.2 := by
  have found : (scope.items.find? fun other => other.1 = item.1).isSome := by
    rw [List.find?_isSome]
    exact ⟨item, member, by simp⟩
  obtain ⟨other, found⟩ := Option.isSome_iff_exists.mp found
  have sameKey : other.1 = item.1 := by simpa using List.find?_some found
  have same : other = item :=
    List.inj_on_of_nodup_map distinct (List.mem_of_find?_eq_some found) member sameKey
  rw [find?, found, same]
  rfl

end Scope

namespace Project

variable {project : Project}

theorem find_ownItems {path : Text} {file : ProjectFile}
    (held : project.files.get? path = some file) (key : Key) :
    ((Scope.ownItems file).find? fun item => item.1 = key).map Prod.snd =
      project.ownOrigin? path key := by
  simp [Scope.ownItems, ownOrigin?, held, path_of_get held, Function.comp_def]

/-- The scope of a file is what plain visibility says. -/
structure Fits (project : Project) (acyclic : project.Acyclic) (path : Text) (scope : Scope) : Prop where
  file : scope.file = path
  find : ∀ key, scope.find? key = project.visible acyclic path key
  once : (scope.items.map Prod.fst).Nodup
  direct : scope.direct = project.presentImports path

section Assembly

variable {acyclic : project.Acyclic} {paths : List Text} {imports : List Scope}

theorem map_file_of_fits (fits : List.Forall₂ (project.Fits acyclic) paths imports) :
    imports.map Scope.file = paths := by
  induction fits with
  | nil => rfl
  | cons head _ induction => simp [head.file, induction]

theorem find_near (present : ∀ path ∈ paths, project.has path = true) (key : Key)
    (fits : List.Forall₂ (project.Fits acyclic) paths imports) :
    ((imports.flatMap fun scope =>
        ((project.files.get? scope.file).map Scope.ownItems).getD []).find? fun item =>
          item.1 = key).map Prod.snd =
      paths.findSome? fun next => project.ownOrigin? next key := by
  induction fits with
  | nil => rfl
  | @cons path scope paths imports head _ induction =>
      obtain ⟨file, held⟩ := (has_iff path).mp (present path List.mem_cons_self)
      rw [List.flatMap_cons, List.find?_append, Option.map_or,
        induction fun next member => present next (List.mem_cons_of_mem _ member)]
      simp only [head.file, held, Option.map_some, Option.getD_some, find_ownItems held,
        List.findSome?_cons]
      cases project.ownOrigin? path key <;> rfl

theorem find_far (key : Key) (fits : List.Forall₂ (project.Fits acyclic) paths imports) :
    ((imports.flatMap Scope.items).find? fun item => item.1 = key).map Prod.snd =
      paths.findSome? fun next => project.visible acyclic next key := by
  induction fits with
  | nil => rfl
  | @cons path scope paths imports head _ induction =>
      have first : (scope.items.find? fun item => item.1 = key).map Prod.snd =
          project.visible acyclic path key := head.find key
      rw [List.flatMap_cons, List.find?_append, Option.map_or, induction, first,
        List.findSome?_cons]
      cases project.visible acyclic path key <;> rfl

theorem fits_assemble {path : Text} {file : ProjectFile}
    (held : project.files.get? path = some file)
    (fits : List.Forall₂ (project.Fits acyclic) (project.presentImports path) imports) :
    project.Fits acyclic path (Scope.assemble project file imports) where
  file := path_of_get held
  find := by
    intro key
    have present : ∀ next ∈ project.presentImports path, project.has next = true :=
      fun next member => (List.mem_filter.mp member).2
    rw [visible_eq, ← find_near present key fits, ← find_far key fits, ← find_ownItems held]
    simp only [Scope.assemble, Scope.find?, Scope.find_foldl_define, List.find?_nil, Option.none_or,
      List.find?_append, Option.map_or, Option.or_assoc]
  once := Scope.nodup_foldl_define _ _ List.nodup_nil
  direct := map_file_of_fits fits

end Assembly

section Computation

variable {acyclic : project.Acyclic}

/-- All scopes in the table so far are right, and none is of a file outside the project. -/
def Sound (acyclic : project.Acyclic) (progress : ScopeProgress) : Prop :=
  ∀ path scope, progress.scopes.get? path = some scope →
    project.has path = true ∧ project.Fits acyclic path scope

/-- Part of the computation comes to an end, keeps the table sound, takes nothing out of it and
puts in the scopes of all files that were wanted. -/
def Computes (acyclic : project.Acyclic) (before : ScopeProgress) (wanted : List Text)
    (result : Except Stopped ScopeProgress) : Prop :=
  ∃ after, result = .ok after ∧ Sound acyclic after ∧
    (∀ path, before.scopes.contains path = true → after.scopes.contains path = true) ∧
    ∀ path ∈ wanted, project.has path = true → after.scopes.contains path = true

theorem Computes.unchanged {progress : ScopeProgress} (sound : Sound acyclic progress)
    {wanted : List Text}
    (known : ∀ path ∈ wanted, project.has path = true → progress.scopes.contains path = true) :
    Computes acyclic progress wanted (.ok progress) :=
  ⟨progress, rfl, sound, fun _ kept => kept, known⟩

theorem computes_foldlM (visitNext : ScopeProgress → Text → Except Stopped ScopeProgress)
    (nexts : List Text) (progress : ScopeProgress) (sound : Sound acyclic progress)
    (each : ∀ progress, Sound acyclic progress → ∀ next ∈ nexts,
      Computes acyclic progress [next] (visitNext progress next)) :
    Computes acyclic progress nexts (nexts.foldlM visitNext progress) := by
  induction nexts generalizing progress with
  | nil => exact .unchanged sound (by simp)
  | cons next rest induction =>
      obtain ⟨middle, first, sound, kept, visited⟩ := each progress sound next List.mem_cons_self
      obtain ⟨after, others, sound, keptLater, visitedLater⟩ := induction middle sound
        fun progress sound other member => each progress sound other (List.mem_cons_of_mem _ member)
      refine ⟨after, ?_, sound, fun path known => keptLater path (kept path known), ?_⟩
      · rw [List.foldlM_cons, first]
        exact others
      · intro path member present
        rcases List.mem_cons.mp member with rfl | member
        · exact keptLater path (visited path List.mem_cons_self present)
        · exact visitedLater path member present

/-- The scopes that the table holds for some paths, once all files among them have one. -/
theorem fits_of_sound {progress : ScopeProgress} (sound : Sound acyclic progress) (paths : List Text)
    (visited : ∀ path ∈ paths, project.has path = true → progress.scopes.contains path = true) :
    List.Forall₂ (project.Fits acyclic) (paths.filter project.has)
      (paths.filterMap progress.scopes.get?) := by
  induction paths with
  | nil => exact .nil
  | cons path rest induction =>
      have later := induction fun next member => visited next (List.mem_cons_of_mem _ member)
      by_cases present : project.has path = true
      · obtain ⟨scope, found⟩ :=
          (Table.contains_iff _ _).mp (visited path List.mem_cons_self present)
        rw [List.filter_cons_of_pos present, List.filterMap_cons_some found]
        exact .cons (sound path scope found).2 later
      · have absent : progress.scopes.get? path = none := by
          cases found : progress.scopes.get? path with
          | none => rfl
          | some scope => exact absurd (sound path scope found).1 present
        rw [List.filter_cons_of_neg present, List.filterMap_cons_none absent]
        exact later

theorem length_le_files {pending : List Text} (distinct : pending.Nodup)
    (present : ∀ path ∈ pending, project.has path = true) :
    pending.length ≤ project.files.size := by
  have included : pending ⊆ project.paths :=
    fun path member => (mem_paths path).mpr (present path member)
  have bound := (distinct.subperm included).length_le
  simpa [paths, Table.keys, Table.size] using bound

/-- The last step of a visit: the scopes of all imports are there, and the file gets its own. -/
theorem computes_insert {progress : ScopeProgress} {path : Text} {file : ProjectFile}
    (held : project.files.get? path = some file) {visited : Except Stopped ScopeProgress}
    (computes : Computes acyclic progress file.importPaths visited) :
    Computes acyclic progress [path] do
      let progress ← visited
      let imports := file.importPaths.filterMap progress.scopes.get?
      let scope := Scope.assemble project file imports
      return { progress with scopes := progress.scopes.insert path scope } := by
  obtain ⟨after, rfl, sound, kept, known⟩ := computes
  have fits := fits_of_sound sound file.importPaths known
  rw [← importsOf_get held] at fits
  refine ⟨_, rfl, ?_, ?_, ?_⟩
  · intro other scope found
    rw [Table.get_insert] at found
    split at found
    next same =>
      obtain rfl := Option.some.inj found
      rw [same]
      exact ⟨(has_iff path).mpr ⟨file, held⟩, importsOf_get held ▸ fits_assemble held fits⟩
    next => exact sound other scope found
  · intro other member
    obtain ⟨scope, found⟩ := (Table.contains_iff _ _).mp (kept other member)
    rw [Table.contains_iff]
    by_cases same : other = path
    · subst same
      exact ⟨_, Table.get_insert_self _ _ _⟩
    · exact ⟨scope, (Table.get_insert_of_ne _ _ same).trans found⟩
  · intro other member _
    rw [List.mem_singleton.mp member, Table.contains_iff]
    exact ⟨_, Table.get_insert_self _ _ _⟩

/-- One visit. The pending files all lead to the file that is visited, so none of them is met
again, and there are never more of them than files; this is what makes the fuel suffice. -/
theorem computes_visit (acyclic : project.Acyclic) (fuel : Nat) (pending : List Text)
    (progress : ScopeProgress) (path : Text) (sound : Sound acyclic progress)
    (leads : ∀ earlier ∈ pending, Relation.TransGen project.Imports earlier path)
    (distinct : pending.Nodup) (enough : project.files.size < fuel + pending.length) :
    Computes acyclic progress [path] (visit project fuel pending progress path) := by
  induction fuel generalizing pending progress path with
  | zero =>
      have present : ∀ earlier ∈ pending, project.has earlier = true := by
        intro earlier member
        obtain ⟨next, step, -⟩ := Relation.TransGen.head'_iff.mp (leads earlier member)
        exact step.has_path
      have bound := length_le_files distinct present
      omega
  | succ fuel induction =>
      have fresh : path ∉ pending := fun member => acyclic path (leads path member)
      rw [visit]
      split
      next known => exact .unchanged sound (by simpa using fun _ => known)
      next unknown =>
        rw [if_neg (by simpa using fresh)]
        cases held : project.files.get? path with
        | none =>
            refine .unchanged sound ?_
            intro other member present
            obtain ⟨file, found⟩ := (has_iff other).mp present
            rw [List.mem_singleton.mp member, held] at found
            exact absurd found (by simp)
        | some file =>
            refine computes_insert held (computes_foldlM _ _ progress sound ?_)
            intro progress sound next member
            by_cases present : project.has next = true
            · have step : project.Imports path next :=
                (imports_iff held).mpr ⟨(Table.mem_keys _ _).mp member, present⟩
              simp only [present, if_true]
              apply induction (path :: pending) progress next sound
              · intro earlier listed
                rcases List.mem_cons.mp listed with rfl | listed
                · exact .single step
                · exact (leads earlier listed).tail step
              · exact List.nodup_cons.mpr ⟨fresh, distinct⟩
              · simp only [List.length_cons]
                omega
            · simp only [present]
              refine ⟨_, rfl, sound, fun _ kept => kept, ?_⟩
              intro other listed held
              exact absurd (List.mem_singleton.mp listed ▸ held) present

theorem computes_scopes (acyclic : project.Acyclic) :
    Computes acyclic ⟨∅, []⟩ project.paths project.scopes := by
  apply computes_foldlM
  · intro path scope found
    simp at found
  · intro progress sound path _
    exact computes_visit acyclic _ [] progress path sound (by simp) List.nodup_nil (by simp)

end Computation

/-- The scopes of an acyclic project are computed, one for every file, and say what plain
visibility says. -/
theorem scopes_fit (acyclic : project.Acyclic) :
    ∃ progress, project.scopes = .ok progress ∧
      (∀ path, progress.scopes.contains path = project.has path) ∧
      ∀ path scope, progress.scopes.get? path = some scope → project.Fits acyclic path scope := by
  obtain ⟨progress, done, sound, -, visited⟩ := computes_scopes acyclic
  refine ⟨progress, done, ?_, fun path scope found => (sound path scope found).2⟩
  intro path
  rw [Bool.eq_iff_iff]
  constructor
  · intro known
    obtain ⟨scope, found⟩ := (Table.contains_iff _ _).mp known
    exact (sound path scope found).1
  · intro present
    exact visited path ((mem_paths path).mpr present) present

/-- The scopes of an acyclic project: every file has one, which holds every key once; looking a
key up gives what plain visibility gives, so it finds exactly the keys that files within reach
define; every item names such a file and a definition listed there; and the direct imports are
those that the project holds. -/
theorem scopes_eq_visible (project : Project) (acyclic : project.Acyclic) :
    ∃ progress, project.scopes = .ok progress ∧
      (∀ path, progress.scopes.contains path = project.has path) ∧
      ∀ path scope, progress.scopes.get? path = some scope →
        scope.file = path ∧
        (scope.items.map Prod.fst).Nodup ∧
        (∀ key, scope.find? key = project.visible acyclic path key) ∧
        (∀ key, (scope.find? key).isSome ↔
          ∃ source, project.Reaches path source ∧ project.Defines source key) ∧
        (∀ item ∈ scope.items, project.Reaches path item.2.file ∧
          ∃ file, project.files.get? item.2.file = some file ∧
            item.2.definition ∈ file.definitions ∧ item.2.definition.item.key = item.1) ∧
        scope.direct = project.presentImports path := by
  obtain ⟨progress, done, covered, fits⟩ := scopes_fit acyclic
  refine ⟨progress, done, covered, fun path scope found => ?_⟩
  have fit := fits path scope found
  refine ⟨fit.file, fit.once, fit.find, ?_, ?_, fit.direct⟩
  · intro key
    rw [fit.find]
    exact isSome_visible acyclic path key
  · intro item member
    have seen := Scope.find_of_mem fit.once member
    rw [fit.find] at seen
    obtain ⟨chain, own⟩ := visible_origin acyclic seen
    exact ⟨chain, (ownOrigin_eq_some own).2⟩

def sketch (path : Text) (imports : List Text) (functions : List Text) : ProjectFile where
  path := path
  name := path
  source := []
  imports := Table.ofList (imports.map fun target => (target, ⟨.relative target, .zero⟩))
  definitions := functions.map fun name => ⟨⟨name, .function⟩, .zero⟩
  usages := []
  testcases := []

/-- Two imports of one file that share a third, and one that leads nowhere. The shared file
defines a name twice, and one of the two files in between defines it again. -/
def diamond : Project :=
  [sketch "top" ["left", "right", "gone"] ["Run"], sketch "left" ["base"] [],
    sketch "right" ["base"] ["help"], sketch "base" [] ["Help", "HELP", "log"]].foldl
    Project.put (Project.empty [])

theorem diamond_acyclic : diamond.Acyclic :=
  acyclic_of_rank (fun path => if path = Text.ofString "top" then 2
    else if path = Text.ofString "base" then 0 else 1) (by decide +kernel)

theorem diamond_scopes_eq_visible :
    ∃ progress, diamond.scopes = .ok progress ∧
      ∀ scope, progress.scopes.get? "top" = some scope →
        (∀ key, scope.find? key = diamond.visible diamond_acyclic "top" key) ∧
        scope.direct = diamond.presentImports "top" := by
  obtain ⟨progress, done, -, fits⟩ := scopes_eq_visible diamond diamond_acyclic
  refine ⟨progress, done, fun scope found => ?_⟩
  obtain ⟨-, -, find, -, -, direct⟩ := fits _ scope found
  exact ⟨find, direct⟩

end Project

end ScopeLint
