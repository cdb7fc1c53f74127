import ScopeLint.Lint.Check
import ScopeLint.Proofs.CommandLine.Levels
import ScopeLint.Proofs.Lint.Order

/-!
What levels do to a report. They leave out the findings of some lints and label the others; which
findings there are and how they are ordered does not depend on them, nor on the order of the lints.
-/

namespace ScopeLint

def Diagnostic.isAt (diagnostic : Diagnostic) (file : Text) (line col : Int) : Bool :=
  diagnostic.file = file ∧ diagnostic.line = line ∧ diagnostic.col = col

theorem Lint.ofSlug_slug (lint : Lint) : Lint.ofSlug? lint.slug = some lint := by
  cases lint <;> rfl

theorem Lint.slug_injective {lint other : Lint} (same : lint.slug = other.slug) : lint = other := by
  have found := ofSlug_slug lint
  rw [same, ofSlug_slug] at found
  exact (Option.some.inj found).symm

namespace LevelConfig

def Silences (config : LevelConfig) (lint : Lint) : Prop :=
  (config.levelOf lint).rank ≤ Level.allow.rank

instance (config : LevelConfig) (lint : Lint) : Decidable (config.Silences lint) :=
  inferInstanceAs (Decidable (_ ≤ _))

/-- The diagnostic at the level of its lint, unless that is silenced. -/
def relevel? (config : LevelConfig) (diagnostic : Diagnostic) : Option Diagnostic :=
  (Lint.ofSlug? diagnostic.code).bind fun lint =>
    if config.Silences lint then none else some { diagnostic with level := config.levelOf lint }

def everyDenied : LevelConfig := ⟨Lint.all.map fun lint => (lint.slug, .deny), .unset⟩

theorem levelOf_everyDenied (lint : Lint) : everyDenied.levelOf lint = .deny := by
  cases lint <;> decide +kernel

theorem keepsOrder_relevel (config : LevelConfig) : KeepsOrder Diagnostic.le config.relevel? := by
  intro diagnostic changed kept other
  obtain ⟨lint, -, kept⟩ := Option.bind_eq_some_iff.mp kept
  obtain ⟨-, kept⟩ := Option.ite_none_left_eq_some.mp kept
  obtain rfl := Option.some.inj kept
  exact ⟨rfl, rfl⟩

end LevelConfig

namespace Lint

variable {lints others : List Lint} {config : LevelConfig} {analysis : Analysis}

def reportAt (level : Level) (analysis : Analysis) (lint : Lint) : List Diagnostic :=
  (lint.findings analysis).map (lint.report analysis.project level)

def runAt (level : Level) (lints : List Lint) (analysis : Analysis) : List Diagnostic :=
  Diagnostic.sort (lints.flatMap (reportAt level analysis))

theorem code_of_mem_reportAt {level : Level} {lint : Lint} {diagnostic : Diagnostic}
    (reported : diagnostic ∈ reportAt level analysis lint) : diagnostic.code = lint.slug := by
  obtain ⟨finding, -, rfl⟩ := List.mem_map.mp reported
  rfl

theorem check_eq (analysis : Analysis) (config : LevelConfig) (lint : Lint) :
    check analysis config lint =
      if config.Silences lint then [] else reportAt (config.levelOf lint) analysis lint := rfl

theorem code_of_mem_check {lint : Lint} {diagnostic : Diagnostic}
    (reported : diagnostic ∈ check analysis config lint) : diagnostic.code = lint.slug := by
  rw [check_eq] at reported
  split at reported
  · cases reported
  · exact code_of_mem_reportAt reported

/-- What a lint reports under some levels is what it reports when denied, with the level changed. -/
theorem check_eq_relevel (analysis : Analysis) (config : LevelConfig) (lint : Lint) :
    check analysis config lint = (reportAt .deny analysis lint).filterMap config.relevel? := by
  simp only [check_eq, reportAt, List.filterMap_map]
  have changed (finding : Finding) :
      (config.relevel? ∘ lint.report analysis.project .deny) finding =
        if config.Silences lint then none
        else some (lint.report analysis.project (config.levelOf lint) finding) := by
    rw [Function.comp_apply, LevelConfig.relevel?, report, ofSlug_slug]
    rfl
  rw [funext changed]
  split
  · simp
  · rw [List.filterMap_eq_map']

theorem run_eq_filterMap (lints : List Lint) (config : LevelConfig) (analysis : Analysis) :
    run lints config analysis = (runAt .deny lints analysis).filterMap config.relevel? := by
  rw [run, runAt, Diagnostic.sort, Diagnostic.sort, filterMap_mergeSort Diagnostic.le_transitive
    Diagnostic.le_total config.keepsOrder_relevel, List.filterMap_flatMap]
  congr 2
  funext lint
  exact check_eq_relevel analysis config lint

/-- Lists of which only one is not empty are joined to that one, in whatever order. -/
theorem flatMap_eq_of_lone {Item : Type} {list : Lint → List Item}
    (lone : ∀ lint other, list lint ≠ [] → list other ≠ [] → lint = other)
    (permuted : lints.Perm others) : lints.flatMap list = others.flatMap list := by
  induction permuted with
  | nil => rfl
  | cons lint _ induction => rw [List.flatMap_cons, List.flatMap_cons, induction]
  | swap lint other rest =>
      simp only [List.flatMap_cons]
      rcases eq_or_ne (list lint) [] with empty | nonempty
      · simp [empty]
      · rcases eq_or_ne (list other) [] with empty | more
        · simp [empty]
        · rw [lone lint other nonempty more]
  | trans _ _ first second => exact first.trans second

theorem flatMap_eq_of_alone {Item : Type} {list : Lint → List Item} {lint : Lint}
    (alone : ∀ other, other ≠ lint → list other = []) (distinct : lints.Nodup)
    (listed : lint ∈ lints) : lints.flatMap list = list lint := by
  have only (other : Lint) (nonempty : list other ≠ []) : other = lint :=
    Decidable.byContradiction fun unlike => nonempty (alone other unlike)
  have rest : (lints.erase lint).flatMap list = [] := by
    apply List.flatMap_eq_nil_iff.mpr
    intro other remains
    exact alone other (distinct.mem_erase_iff.mp remains).1
  rw [flatMap_eq_of_lone (fun first second nonempty more => (only first nonempty).trans (only second more).symm)
    (List.perm_cons_erase listed), List.flatMap_cons, rest, List.append_nil]

/-- The ties of a diagnostic come from the lint that it names. -/
theorem code_of_filter_isTied {sample : Diagnostic} {lint : Lint} {reported : List Diagnostic}
    (coded : ∀ diagnostic ∈ reported, diagnostic.code = lint.slug)
    (nonempty : reported.filter (isTied Diagnostic.le sample) ≠ []) : sample.code = lint.slug := by
  obtain ⟨other, listed⟩ := List.exists_mem_of_ne_nil _ nonempty
  obtain ⟨member, tied⟩ := List.mem_filter.mp listed
  rw [((Diagnostic.isTied_iff _ _).mp tied).2.2.2, coded other member]

theorem runAt_perm (level : Level) (permuted : lints.Perm others) (analysis : Analysis) :
    runAt level lints analysis = runAt level others analysis := by
  apply mergeSort_eq_of_filter_isTied Diagnostic.le_transitive Diagnostic.le_total
  intro diagnostic
  rw [List.filter_flatMap, List.filter_flatMap]
  apply flatMap_eq_of_lone ?_ permuted
  intro lint other nonempty more
  exact slug_injective ((code_of_filter_isTied (fun _ => code_of_mem_reportAt) nonempty).symm.trans
    (code_of_filter_isTied (fun _ => code_of_mem_reportAt) more))

theorem run_everyDenied (lints : List Lint) (analysis : Analysis) :
    run lints .everyDenied analysis = runAt .deny lints analysis := by
  have denied (lint : Lint) : check analysis .everyDenied lint = reportAt .deny analysis lint := by
    have level := LevelConfig.levelOf_everyDenied lint
    rw [check_eq, level, if_neg]
    rw [LevelConfig.Silences, level]
    decide
  rw [run, runAt, funext denied]

theorem filter_run {lint : Lint} (distinct : lints.Nodup) (listed : lint ∈ lints)
    (config : LevelConfig) (analysis : Analysis) (file : Text) (line col : Int) :
    (run lints config analysis).filter
        (fun diagnostic => diagnostic.code = lint.slug && diagnostic.isAt file line col) =
      (check analysis config lint).filter fun diagnostic => diagnostic.isAt file line col := by
  -- What ties with such a sample is what is asked for, and sorting keeps ties in order.
  let sample : Diagnostic := ⟨file, line, col, [], lint.slug, .deny, [], [], .zero⟩
  have tied (diagnostic : Diagnostic) : isTied Diagnostic.le sample diagnostic =
      (diagnostic.code = lint.slug && diagnostic.isAt file line col) := by
    rw [Bool.eq_iff_iff, Diagnostic.isTied_iff]
    simp only [sample, Diagnostic.isAt, Bool.and_eq_true, decide_eq_true_eq]
    constructor
    · rintro ⟨file, line, col, code⟩
      exact ⟨code.symm, file.symm, line.symm, col.symm⟩
    · rintro ⟨code, file, line, col⟩
      exact ⟨file.symm, line.symm, col.symm, code.symm⟩
  have alone (other : Lint) (unlike : other ≠ lint) :
      (check analysis config other).filter (isTied Diagnostic.le sample) = [] := by
    apply Decidable.byContradiction
    intro nonempty
    exact unlike (slug_injective (code_of_filter_isTied (fun _ => code_of_mem_check) nonempty)).symm
  rw [← funext tied, run, Diagnostic.sort,
    filter_isTied_mergeSort Diagnostic.le_transitive Diagnostic.le_total, List.filter_flatMap,
    flatMap_eq_of_alone alone distinct listed]
  apply List.filter_congr
  intro diagnostic reported
  rw [tied, code_of_mem_check reported, decide_eq_true rfl, Bool.true_and]

/-- Levels only leave out and label, and the order of the lints is irrelevant. With all lints in any
order, the report is that of all lints denied, less the diagnostics of silenced lints, each at the
level of its lint. It is sorted by file, line, column and lint; it holds exactly what the lints report;
and the diagnostics of each lint at one place stand as the lint reports them. -/
theorem run_relabels (analysis : Analysis) (config : LevelConfig) (lints : List Lint)
    (permuted : lints.Perm all) :
    run lints config analysis = (runAt .deny all analysis).filterMap config.relevel? ∧
      runAt .deny all analysis = run all .everyDenied analysis ∧
      (run lints config analysis).Pairwise Diagnostic.Precedes ∧
      (run lints config analysis).Perm (lints.flatMap (check analysis config)) ∧
      ∀ lint file line col,
        (run lints config analysis).filter
            (fun diagnostic => diagnostic.code = lint.slug && diagnostic.isAt file line col) =
          (check analysis config lint).filter fun diagnostic => diagnostic.isAt file line col := by
  have distinct : lints.Nodup := permuted.nodup_iff.mpr (by decide)
  refine ⟨?_, (run_everyDenied all analysis).symm, Diagnostic.sorted_sort _,
    List.mergeSort_perm _ _, ?_⟩
  · rw [run_eq_filterMap, runAt_perm .deny permuted]
  · intro lint
    exact filter_run distinct (permuted.mem_iff.mpr lint.mem_all) config analysis

/-- Two findings of each of two lints at one place, and one of a third lint. -/
def clash : Analysis where
  project :=
    { Project.empty "/w" with
      problems := [(.syntaxError, "b"), (.missingImport, "/w/y.ps1"), (.unrecognizedImport, ""),
        (.missingImport, "/w/x.ps1"), (.syntaxError, "a")].map fun (kind, text) =>
          ⟨kind, "a.ps1", "/w/a.ps1", .zero, Text.ofString text, Text.ofString text⟩ }
  scopes := ∅
  files := []

def clashLevels : LevelConfig := ⟨[("unrecognized-imports", .allow)], .warn⟩

theorem clash_relabeled :
    all.reverse.Perm all ∧
      run all.reverse clashLevels clash = (runAt .deny all clash).filterMap clashLevels.relevel? ∧
      ((run all.reverse clashLevels clash).filter fun diagnostic =>
          diagnostic.code = nonexistingImports.slug && diagnostic.isAt "a.ps1" 0 0).map
        (fun diagnostic => (diagnostic.level, diagnostic.notes)) =
        [(.warn, [Text.ofString "File not found: y.ps1"]),
          (.warn, [Text.ofString "File not found: x.ps1"])] := by
  have permuted : all.reverse.Perm all := List.reverse_perm all
  obtain ⟨relabeled, -, -, -, ordered⟩ := run_relabels clash clashLevels all.reverse permuted
  refine ⟨permuted, relabeled, ?_⟩
  rw [ordered nonexistingImports "a.ps1" 0 0]
  decide +kernel

end Lint

end ScopeLint
