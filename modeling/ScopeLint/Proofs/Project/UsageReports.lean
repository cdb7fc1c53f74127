import ScopeLint.Proofs.Project.Cycles
import ScopeLint.Proofs.Project.IndirectImports

/-!
Which usages are reported. Each list holds the usages that meet its condition, in order, and of
those with one key only the first. A usage that does not meet the condition, because a comment
allows it or because it is spelled right, does not stand in for a later one. One pass over the
usages that keeps the keys reported so far in each list, leaves a usage as soon as nothing more can
be said of it, and credits imports on the way collects the same.
-/

namespace ScopeLint

namespace Usage

/-- A place at which a usage meets a condition, and no usage of the same key before it does. -/
def FirstAt (meets : Usage → Prop) (usages : List Usage) (place : Nat) : Prop :=
  ∃ usage, usages[place]? = some usage ∧ meets usage ∧
    ∀ before < place, ∀ other, usages[before]? = some other → meets other →
      other.item.key ≠ usage.item.key

/-- The usages that meet a condition, in order, the first of every key. -/
structure FirstOfEach (meets : Usage → Prop) (usages kept : List Usage) : Prop where
  places : ∃ places : List Nat, places.Pairwise (· < ·) ∧
    (∀ place, place ∈ places ↔ FirstAt meets usages place) ∧
    kept.map some = places.map fun place => usages[place]?
  /-- A key is reported just if some usage of it meets the condition, -/
  reported : ∀ key, key ∈ kept.map (fun usage => usage.item.key) ↔
    ∃ usage ∈ usages, meets usage ∧ usage.item.key = key
  /-- and then once. -/
  once : (kept.map fun usage => usage.item.key).Nodup

variable {meets : Usage → Prop} {first : Usage} {rest usages kept : List Usage} {seen : List Key}

theorem firstAt_zero : FirstAt meets (first :: rest) 0 ↔ meets first := by
  simp [FirstAt]

theorem firstAt_succ {place : Nat} :
    FirstAt meets (first :: rest) (place + 1) ↔ FirstAt meets rest place ∧
      (meets first → ∀ usage, rest[place]? = some usage → first.item.key ≠ usage.item.key) := by
  constructor
  · rintro ⟨usage, here, holds, apart⟩
    rw [List.getElem?_cons_succ] at here
    refine ⟨⟨usage, here, holds, ?_⟩, ?_⟩
    · intro before earlier other there
      exact apart (before + 1) (Nat.succ_lt_succ earlier) other
        (by rwa [List.getElem?_cons_succ])
    · intro holdsFirst same found
      obtain rfl := Option.some.inj (here.symm.trans found)
      exact apart 0 (Nat.succ_pos place) first rfl holdsFirst
  · rintro ⟨⟨usage, here, holds, apart⟩, front⟩
    refine ⟨usage, by rwa [List.getElem?_cons_succ], holds, ?_⟩
    intro before earlier other there holdsOther
    cases before with
    | zero =>
        obtain rfl := Option.some.inj there
        exact front holdsOther usage here
    | succ before =>
        rw [List.getElem?_cons_succ] at there
        exact apart before (Nat.lt_of_succ_lt_succ earlier) other there holdsOther

/-- The places of the usages that are kept when some keys have been seen before. -/
structure Placed (meets : Usage → Prop) (seen : List Key) (usages kept : List Usage)
    (places : List Nat) : Prop where
  increasing : places.Pairwise (· < ·)
  listed : ∀ place, place ∈ places ↔ FirstAt meets usages place ∧
    ∀ usage, usages[place]? = some usage → usage.item.key ∉ seen
  same : kept.map some = places.map fun place => usages[place]?

theorem map_succ_places (first : Usage) (rest : List Usage) (places : List Nat) :
    (places.map (· + 1)).map (fun place => (first :: rest)[place]?) =
      places.map fun place => rest[place]? := by
  rw [List.map_map]
  rfl

theorem Placed.keep {places : List Nat} (placed : Placed meets (first.item.key :: seen) rest kept places)
    (holds : meets first) (fresh : first.item.key ∉ seen) :
    Placed meets seen (first :: rest) (first :: kept) (0 :: places.map (· + 1)) where
  increasing := by
    refine List.pairwise_cons.mpr ⟨fun place member => ?_,
      List.pairwise_map.mpr (placed.increasing.imp Nat.succ_lt_succ)⟩
    obtain ⟨before, -, rfl⟩ := List.mem_map.mp member
    exact Nat.succ_pos before
  listed := by
    intro place
    cases place with
    | zero => simp [firstAt_zero, holds, fresh]
    | succ place =>
        simp only [List.mem_cons, Nat.add_eq_zero_iff, one_ne_zero, and_false, false_or,
          List.mem_map, Nat.add_right_cancel_iff, exists_eq_right, placed.listed, firstAt_succ,
          List.getElem?_cons_succ, not_or, holds, true_imp_iff]
        constructor
        · rintro ⟨here, apart⟩
          exact ⟨⟨here, fun usage found => Ne.symm (apart usage found).1⟩,
            fun usage found => (apart usage found).2⟩
        · rintro ⟨⟨here, apart⟩, unseen⟩
          exact ⟨here, fun usage found => ⟨Ne.symm (apart usage found), unseen usage found⟩⟩
  same := by
    rw [List.map_cons, List.map_cons, map_succ_places, placed.same]
    rfl

/-- A usage that is left out changes nothing for those behind it. -/
theorem Placed.leave {places : List Nat} (placed : Placed meets seen rest kept places)
    (out : meets first → first.item.key ∈ seen) :
    Placed meets seen (first :: rest) kept (places.map (· + 1)) where
  increasing := List.pairwise_map.mpr (placed.increasing.imp Nat.succ_lt_succ)
  listed := by
    intro place
    cases place with
    | zero =>
        simp only [List.mem_map, Nat.add_eq_zero_iff, one_ne_zero, and_false, exists_false,
          false_iff, firstAt_zero, List.getElem?_cons_zero, Option.some.injEq, forall_eq']
        exact fun both => both.2 (out both.1)
    | succ place =>
        simp only [List.mem_map, Nat.add_right_cancel_iff, exists_eq_right, placed.listed,
          firstAt_succ, List.getElem?_cons_succ]
        constructor
        · rintro ⟨here, unseen⟩
          refine ⟨⟨here, fun holds usage found same => unseen usage found ?_⟩, unseen⟩
          rw [← same]
          exact out holds
        · rintro ⟨⟨here, -⟩, unseen⟩
          exact ⟨here, unseen⟩
  same := by rw [map_succ_places, placed.same]

theorem exists_placed_firsts (meets : Usage → Bool) (seen : List Key) (usages : List Usage) :
    ∃ places, Placed (meets · = true) seen usages (firsts seen (usages.filter meets)) places := by
  induction usages generalizing seen with
  | nil => exact ⟨[], List.Pairwise.nil, by simp [FirstAt], rfl⟩
  | cons first rest induction =>
      by_cases holds : meets first = true
      · rw [List.filter_cons_of_pos holds, firsts]
        split
        next known =>
          obtain ⟨places, placed⟩ := induction seen
          exact ⟨_, placed.leave fun _ => by simpa using known⟩
        next fresh =>
          obtain ⟨places, placed⟩ := induction (first.item.key :: seen)
          exact ⟨_, placed.keep holds (by simpa using fresh)⟩
      · rw [List.filter_cons_of_neg holds]
        obtain ⟨places, placed⟩ := induction seen
        exact ⟨_, placed.leave fun now => absurd now holds⟩

theorem mem_keys_firsts (key : Key) (seen : List Key) (usages : List Usage) :
    key ∈ (firsts seen usages).map (fun usage => usage.item.key) ↔
      key ∉ seen ∧ ∃ usage ∈ usages, usage.item.key = key := by
  induction usages generalizing seen with
  | nil => simp [firsts]
  | cons first rest induction =>
      rw [firsts]
      split
      next known =>
        have known : first.item.key ∈ seen := by simpa using known
        rw [induction]
        grind
      next fresh =>
        have fresh : first.item.key ∉ seen := by simpa using fresh
        rw [List.map_cons, List.mem_cons, induction]
        grind

theorem nodup_keys_firsts (seen : List Key) (usages : List Usage) :
    ((firsts seen usages).map fun usage => usage.item.key).Nodup := by
  induction usages generalizing seen with
  | nil => simp [firsts]
  | cons first rest induction =>
      rw [firsts]
      split
      next => exact induction seen
      next =>
        refine List.nodup_cons.mpr ⟨fun again => ?_, induction _⟩
        exact ((mem_keys_firsts _ _ _).mp again).1 List.mem_cons_self

theorem firstOfEach_firsts (meets : Usage → Bool) (usages : List Usage) :
    FirstOfEach (meets · = true) usages (firsts [] (usages.filter meets)) where
  places := by
    obtain ⟨places, placed⟩ := exists_placed_firsts meets [] usages
    exact ⟨places, placed.increasing, fun place => by simp [placed.listed], placed.same⟩
  reported := by
    intro key
    rw [mem_keys_firsts]
    simp [and_assoc]
  once := nodup_keys_firsts [] _

theorem FirstOfEach.congr {other : Usage → Prop} (first : FirstOfEach meets usages kept)
    (same : ∀ usage, meets usage ↔ other usage) : FirstOfEach other usages kept := by
  have equal : meets = other := funext fun usage => propext (same usage)
  exact equal ▸ first

end Usage

/-- The reports of one kind so far, and the keys they are for. -/
structure Tally (Entry : Type) where
  seen : List Key
  entries : List Entry

namespace Tally

variable {Entry : Type}

def empty : Tally Entry := ⟨[], []⟩

def note (tally : Tally Entry) (key : Key) (entry : Entry) : Tally Entry :=
  ⟨key :: tally.seen, tally.entries ++ [entry]⟩

def consider (meets : Usage → Bool) (report? : Usage → Option Entry) (tally : Tally Entry)
    (usage : Usage) : Tally Entry :=
  match report? usage with
  | some entry =>
      if meets usage && !tally.seen.elem usage.item.key then tally.note usage.item.key entry
      else tally
  | none => tally

/-- Considering the usages one after the other collects the first of every key. -/
theorem entries_foldl (meets : Usage → Bool) (report? : Usage → Option Entry)
    (given : ∀ usage, meets usage = true → (report? usage).isSome) (tally : Tally Entry)
    (usages : List Usage) :
    (usages.foldl (consider meets report?) tally).entries =
      tally.entries ++ (Usage.firsts tally.seen (usages.filter meets)).filterMap report? := by
  induction usages generalizing tally with
  | nil => simp [Usage.firsts]
  | cons usage rest induction =>
      rw [List.foldl_cons, induction]
      by_cases holds : meets usage = true
      · obtain ⟨entry, found⟩ := Option.isSome_iff_exists.mp (given usage holds)
        rw [List.filter_cons_of_pos holds, Usage.firsts, consider, found]
        by_cases known : usage.item.key ∈ tally.seen
        · simp [holds, known]
        · simp [holds, known, note, found]
      · rw [List.filter_cons_of_neg holds, consider]
        cases report? usage <;> simp [holds]

end Tally

structure Pass where
  unknown : Tally Usage
  indirect : Tally IndirectUse
  casing : Tally CasingMismatch
  credited : List Text

def Pass.start : Pass := ⟨.empty, .empty, .empty, []⟩

/-- Whether the comment on the line of a usage allows it, by its own name or by the lint. -/
def ProjectFile.Allows (file : ProjectFile) (lint : Lint) (usage : Usage) : Prop :=
  allows (lineAt file.source usage.span.start.byte) usage.item.name = true ∨
    allows (lineAt file.source usage.span.start.byte) lint.slug = true

theorem ProjectFile.allows_iff (view : FileView) (lint : Lint) (usage : Usage) :
    view.file.Allows lint usage ↔ view.isAllowed lint usage = true := by
  simp [Allows, FileView.isAllowed]

namespace FileView

def passCasing (view : FileView) (pass : Pass) (usage : Usage) (origin : Origin) : Pass :=
  if origin.definition.item.name ≠ usage.item.name && !pass.casing.seen.elem usage.item.key
      && !view.isAllowed .invalidLetterCasing usage then
    { pass with casing := pass.casing.note usage.item.key ⟨usage, origin⟩ }
  else pass

def passOrigin (view : FileView) (pass : Pass) (usage : Usage) (origin : Origin) : Pass :=
  if origin.file = view.file.path then pass
  else if view.isDirect origin.file then { pass with credited := pass.credited ++ [origin.file] }
  else
    let use := view.explain usage origin
    let pass := { pass with credited := pass.credited ++ use.credited }
    if !pass.indirect.seen.elem usage.item.key && !view.isAllowed .indirectImports usage then
      { pass with indirect := pass.indirect.note usage.item.key use }
    else pass

def pass (view : FileView) (pass : Pass) (usage : Usage) : Pass :=
  if usage.item.kind ≠ .classType && view.known.contains usage.item.name then pass
  else match view.scope.lookup usage.item with
    | none =>
        if usage.item.kind = .classType || pass.unknown.seen.elem usage.item.key
            || view.isAllowed .unknownFunctions usage then pass
        else { pass with unknown := pass.unknown.note usage.item.key usage }
    | some origin => view.passOrigin (view.passCasing pass usage origin) usage origin

def indirect? (view : FileView) (usage : Usage) : Option IndirectUse :=
  (view.origin? usage).map (view.explain usage)

def casing? (view : FileView) (usage : Usage) : Option CasingMismatch :=
  (view.origin? usage).map fun origin => ⟨usage, origin⟩

def creditsOf (view : FileView) (usage : Usage) : List Text :=
  ((view.origin? usage).map (view.credits usage.item.key)).getD []

theorem passCasing_eq {view : FileView} {usage : Usage} {origin : Origin}
    (found : view.origin? usage = some origin) (before : Pass) :
    view.passCasing before usage origin =
      { before with casing := before.casing.consider view.isMiscased view.casing? usage } := by
  simp only [passCasing, Tally.consider, casing?, isMiscased, found, Option.map_some,
    Option.any_some, Bool.and_right_comm]
  split <;> rfl

theorem passOrigin_eq {view : FileView} {usage : Usage} {origin : Origin}
    (found : view.origin? usage = some origin) (before : Pass) :
    view.passOrigin before usage origin =
      { before with
        indirect := before.indirect.consider view.isIndirect view.indirect? usage
        credited := before.credited ++ view.creditsOf usage } := by
  simp only [passOrigin, Tally.consider, indirect?, isIndirect, creditsOf, credits, found,
    Option.map_some, Option.any_some, Option.getD_some]
  by_cases home : origin.file = view.file.path
  · simp [home]
  by_cases direct : view.isDirect origin.file = true
  · simp [home, direct]
  · simp only [home, direct, explain, if_false, Bool.false_eq_true, ne_eq, not_false_eq_true,
      decide_true, Bool.not_false, Bool.and_true, Bool.true_and, Bool.and_comm]
    split <;> rfl

/-- A step does to each list what that list alone asks for: leaving a usage early and sharing the
step between the lists loses nothing. -/
theorem pass_eq (view : FileView) (before : Pass) (usage : Usage) :
    view.pass before usage =
      { unknown := before.unknown.consider view.isUnknown some usage
        indirect := before.indirect.consider view.isIndirect view.indirect? usage
        casing := before.casing.consider view.isMiscased view.casing? usage
        credited := before.credited ++ view.creditsOf usage } := by
  have skipped : (usage.item.kind ≠ .classType && view.known.contains usage.item.name) =
      !view.looksUp usage := by
    simp [looksUp]
  rw [pass, skipped]
  cases looked : view.looksUp usage with
  | false =>
      simp [Tally.consider, isUnknown, indirect?, casing?, creditsOf, origin?, looked]
  | true =>
      cases refers : view.scope.lookup usage.item with
      | none =>
          have missing : view.origin? usage = none := by rw [origin?, looked, refers]; rfl
          simp only [Tally.consider, isUnknown, indirect?, casing?, creditsOf, missing, looked,
            refers]
          by_cases isClass : usage.item.kind = .classType <;>
            by_cases known : usage.item.key ∈ before.unknown.seen <;>
            cases allowed : view.isAllowed .unknownFunctions usage <;>
            simp [isClass, known]
      | some origin =>
          have found : view.origin? usage = some origin := by rw [origin?, looked, refers]; rfl
          have defined : view.isUnknown usage = false := by simp [isUnknown, refers]
          rw [Bool.not_true, if_neg Bool.false_ne_true]
          dsimp only
          rw [passOrigin_eq found, passCasing_eq found]
          simp [Tally.consider, defined]

theorem foldl_pass (view : FileView) (before : Pass) (usages : List Usage) :
    usages.foldl view.pass before =
      { unknown := usages.foldl (Tally.consider view.isUnknown some) before.unknown
        indirect := usages.foldl (Tally.consider view.isIndirect view.indirect?) before.indirect
        casing := usages.foldl (Tally.consider view.isMiscased view.casing?) before.casing
        credited := before.credited ++ usages.flatMap view.creditsOf } := by
  induction usages generalizing before with
  | nil => simp
  | cons usage rest induction =>
      rw [List.foldl_cons, induction, pass_eq]
      simp only [List.foldl_cons, List.flatMap_cons, List.append_assoc]

/-- One pass over the usages of a file finds all that is found separately. -/
theorem findings_of_pass (view : FileView) :
    view.findings.unknown = (view.file.usages.foldl view.pass .start).unknown.entries ∧
      view.findings.indirect = (view.file.usages.foldl view.pass .start).indirect.entries ∧
      view.findings.casing = (view.file.usages.foldl view.pass .start).casing.entries := by
  rw [foldl_pass]
  refine ⟨?_, ?_, ?_⟩
  · rw [Tally.entries_foldl _ _ (fun _ _ => rfl)]
    simp [Pass.start, Tally.empty, findings, unknown]
  · rw [Tally.entries_foldl]
    · rfl
    · intro usage holds
      cases found : view.origin? usage <;> simp_all [isIndirect, indirect?]
  · rw [Tally.entries_foldl]
    · rfl
    · intro usage holds
      cases found : view.origin? usage <;> simp_all [isMiscased, casing?]

theorem isUnknown_iff (view : FileView) (usage : Usage) :
    view.isUnknown usage = true ↔
      usage.item.kind ≠ .classType ∧ view.known.contains usage.item.name = false ∧
        view.scope.lookup usage.item = none ∧ ¬ view.file.Allows .unknownFunctions usage := by
  rw [ProjectFile.allows_iff view]
  by_cases isClass : usage.item.kind = .classType <;> simp [isUnknown, looksUp, isClass, and_assoc]

theorem isMiscased_iff (view : FileView) (usage : Usage) :
    view.isMiscased usage = true ↔
      (usage.item.kind = .classType ∨ view.known.contains usage.item.name = false) ∧
        ∃ origin, view.scope.lookup usage.item = some origin ∧
          origin.definition.item.name ≠ usage.item.name ∧
          ¬ view.file.Allows .invalidLetterCasing usage := by
  simp only [ProjectFile.allows_iff view, isMiscased, Bool.and_eq_true, Option.any_eq_true,
    origin_iff, decide_eq_true_eq, Bool.not_eq_true', Bool.not_eq_true]
  grind

theorem isIndirect_iff (view : FileView) (usage : Usage) :
    view.isIndirect usage = true ↔
      (usage.item.kind = .classType ∨ view.known.contains usage.item.name = false) ∧
        ∃ origin, view.scope.lookup usage.item = some origin ∧ origin.file ≠ view.file.path ∧
          origin.file ∉ view.scope.direct ∧ ¬ view.file.Allows .indirectImports usage := by
  simp only [ProjectFile.allows_iff view, isIndirect, isDirect, Bool.and_eq_true,
    Option.any_eq_true, origin_iff, decide_eq_true_eq, Bool.not_eq_true', Bool.not_eq_true,
    List.elem_eq_mem, decide_eq_false_iff_not]
  grind

theorem map_usage_filterMap {Entry : Type} (view : FileView) (usages : List Usage)
    (entry : Usage → Origin → Entry) (back : Entry → Usage)
    (same : ∀ usage origin, back (entry usage origin) = usage)
    (refer : ∀ usage ∈ usages, (view.origin? usage).isSome) :
    (usages.filterMap fun usage => (view.origin? usage).map (entry usage)).map back = usages := by
  induction usages with
  | nil => rfl
  | cons usage rest induction =>
      obtain ⟨here, later⟩ := List.forall_mem_cons.mp refer
      obtain ⟨origin, found⟩ := Option.isSome_iff_exists.mp here
      rw [List.filterMap_cons, found, Option.map_some]
      simp [same, induction later]

/-- The usages of a list of reports are the first ones that meet its condition. -/
theorem firstOfEach_reports {Entry : Type} (view : FileView) (meets : Usage → Bool)
    (entry : Usage → Origin → Entry) (back : Entry → Usage)
    (same : ∀ usage origin, back (entry usage origin) = usage)
    (refer : ∀ usage, meets usage = true → (view.origin? usage).isSome) :
    Usage.FirstOfEach (meets · = true) view.file.usages
      (((Usage.firsts [] (view.file.usages.filter meets)).filterMap fun usage =>
        (view.origin? usage).map (entry usage)).map back) := by
  rw [view.map_usage_filterMap _ entry back same]
  · exact Usage.firstOfEach_firsts meets view.file.usages
  · intro usage listed
    exact refer usage (List.mem_filter.mp (Usage.mem_of_mem_firsts listed)).2

theorem firstOfEach_casing (view : FileView) :
    Usage.FirstOfEach (view.isMiscased · = true) view.file.usages
      (view.casing.map CasingMismatch.usage) := by
  apply view.firstOfEach_reports view.isMiscased CasingMismatch.mk
  · exact fun _ _ => rfl
  · intro usage miscased
    obtain ⟨looked, origin, refers, -⟩ := (view.isMiscased_iff usage).mp miscased
    exact Option.isSome_of_eq_some ((view.origin_iff usage origin).mpr ⟨looked, refers⟩)

theorem firstOfEach_indirect (view : FileView) :
    Usage.FirstOfEach (view.isIndirect · = true) view.file.usages
      (view.indirect.map IndirectUse.usage) := by
  apply view.firstOfEach_reports view.isIndirect view.explain
  · exact fun _ _ => rfl
  · intro usage indirect
    obtain ⟨looked, origin, refers, -⟩ := (view.isIndirect_iff usage).mp indirect
    exact Option.isSome_of_eq_some ((view.origin_iff usage origin).mpr ⟨looked, refers⟩)

theorem lookup_of_casing {view : FileView} {report : CasingMismatch}
    (reported : report ∈ view.casing) :
    view.scope.lookup report.usage.item = some report.origin := by
  obtain ⟨usage, -, made⟩ := List.mem_filterMap.mp reported
  obtain ⟨origin, found, rfl⟩ := Option.map_eq_some_iff.mp made
  exact lookup_of_origin found

end FileView

namespace Project

/-- The three lists of reported usages. For every project with its scopes, each list holds exactly
the usages of the file that meet its condition, in order, keeping the first of every key; a key is
in it just if some usage of the key meets the condition, and then once. One pass over the usages
collects all three. -/
theorem usage_reports_exact (project : Project) (progress : ScopeProgress)
    (computed : project.scopes = .ok progress) (known : KnownCommands) (path : Text)
    (file : ProjectFile) (held : project.files.get? path = some file) :
    ∃ scope found, progress.scopes.get? path = some scope ∧
      (Analysis.ofScopes project progress.scopes known).file? path = some found ∧
      Usage.FirstOfEach (fun usage =>
          usage.item.kind ≠ .classType ∧ known.contains usage.item.name = false ∧
            scope.lookup usage.item = none ∧ ¬ file.Allows .unknownFunctions usage)
        file.usages found.unknown ∧
      (Usage.FirstOfEach (fun usage =>
          (usage.item.kind = .classType ∨ known.contains usage.item.name = false) ∧
            ∃ origin, scope.lookup usage.item = some origin ∧
              origin.definition.item.name ≠ usage.item.name ∧
              ¬ file.Allows .invalidLetterCasing usage)
        file.usages (found.casing.map CasingMismatch.usage) ∧
        ∀ report ∈ found.casing, scope.lookup report.usage.item = some report.origin) ∧
      (Usage.FirstOfEach (fun usage =>
          (usage.item.kind = .classType ∨ known.contains usage.item.name = false) ∧
            ∃ origin, scope.lookup usage.item = some origin ∧ origin.file ≠ path ∧
              origin.file ∉ scope.direct ∧ ¬ file.Allows .indirectImports usage)
        file.usages (found.indirect.map IndirectUse.usage) ∧
        ∀ use ∈ found.indirect, scope.lookup use.usage.item = some use.origin) ∧
      let pass := file.usages.foldl
        (FileView.pass ⟨project, progress.scopes, known, file, scope⟩) .start
      found.unknown = pass.unknown.entries ∧ found.indirect = pass.indirect.entries ∧
        found.casing = pass.casing.entries := by
  obtain ⟨again, scope, done, own, shows, found⟩ :=
    exists_shown (acyclic_of_scopes computed) known held
  obtain rfl : progress = again := Except.ok.inj (computed.symm.trans done)
  let view : FileView := ⟨project, progress.scopes, known, file, scope⟩
  refine ⟨scope, view.findings, own, found, ?_, ⟨?_, ?_⟩, ⟨?_, ?_⟩, ?_⟩
  · exact (Usage.firstOfEach_firsts view.isUnknown file.usages).congr view.isUnknown_iff
  · exact view.firstOfEach_casing.congr view.isMiscased_iff
  · exact fun report reported => FileView.lookup_of_casing reported
  · rw [← path_of_get held]
    exact view.firstOfEach_indirect.congr view.isIndirect_iff
  · exact fun use reported => (FileView.lookup_of_indirect reported).1
  · exact view.findings_of_pass

def rotaText : Text := "Foo # allow Foo\nfoo\nFOO\nHelp # allow invalid-letter-casing\nHELP\nwalk\n"

def usageAt (name : Text) (offset : Nat) : Usage :=
  ⟨⟨name, .function⟩, ⟨⟨offset, 1, 1⟩, ⟨offset, 1, 1⟩⟩⟩

def rotaMain : ProjectFile :=
  { sketch "main" ["near"] ["Run"] with
    source := rotaText
    usages := [usageAt "Foo" 0, usageAt "foo" 16, usageAt "FOO" 20, usageAt "Help" 24,
      usageAt "HELP" 60, usageAt "walk" 65] }

/-- A file with commands that are unknown, spelled differently and defined elsewhere, some of them
allowed. -/
def rota : Project :=
  [rotaMain, sketch "near" ["base"] ["Walk"], sketch "base" [] ["help"]].foldl
    Project.put (Project.empty [])

def rotaReports : Option (List Int × List Int × List Int) :=
  let places (usages : List Usage) : List Int := usages.map fun usage => usage.span.start.byte
  match rota.scopes with
  | .ok progress =>
      ((Analysis.ofScopes rota progress.scopes ⟨.empty, .empty⟩).file? "main").map fun found =>
        (places found.unknown, places (found.casing.map CasingMismatch.usage),
          places (found.indirect.map IndirectUse.usage))
  | .error _ => none

theorem rota_usage_reports_exact :
    rotaReports = some ([16], [60, 65], [24]) ∧
      ∃ progress scope found, rota.scopes = .ok progress ∧
        progress.scopes.get? "main" = some scope ∧
        (Analysis.ofScopes rota progress.scopes ⟨.empty, .empty⟩).file? "main" = some found ∧
        Usage.FirstOfEach (fun usage =>
            usage.item.kind ≠ .classType ∧
              KnownCommands.contains ⟨.empty, .empty⟩ usage.item.name = false ∧
              scope.lookup usage.item = none ∧ ¬ rotaMain.Allows .unknownFunctions usage)
          rotaMain.usages found.unknown := by
  have reports : rotaReports = some ([16], [60, 65], [24]) := by decide +kernel
  refine ⟨reports, ?_⟩
  cases computed : rota.scopes with
  | error stopped => simp [rotaReports, computed] at reports
  | ok progress =>
      obtain ⟨scope, found, own, judged, unknown, -⟩ := usage_reports_exact rota progress computed
        ⟨.empty, .empty⟩ "main" rotaMain rfl
      exact ⟨progress, scope, found, rfl, own, judged, unknown⟩

end Project

end ScopeLint
