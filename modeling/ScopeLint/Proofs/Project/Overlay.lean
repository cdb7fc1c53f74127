import ScopeLint.Proofs.Project.Loading
import ScopeLint.Proofs.Project.Scripts

/-!
Which text a file of a loaded project comes from. Several scripts may lead to one file through links.
The one that was added last decides, and its text is looked up under its own path: the text of an
editor counts only if that path is the canonical one.
-/

namespace ScopeLint.Workspace

open ScopeLint.FileTree ScopeLint.Path

variable {workspace : Workspace} {overlay : Table Text} {root : Text}

theorem exists_contribution {Related : Text → Contribution → Prop} {paths : List Text}
    {contributions : List Contribution} (outcomes : List.Forall₂ Related paths contributions) :
    ∀ path ∈ paths, ∃ contribution ∈ contributions, Related path contribution := by
  induction outcomes with
  | nil => simp
  | cons own others induction =>
      intro path member
      rcases List.mem_cons.mp member with rfl | member
      · exact ⟨_, List.mem_cons_self, own⟩
      · obtain ⟨contribution, listed, related⟩ := induction path member
        exact ⟨contribution, List.mem_cons_of_mem _ listed, related⟩

/-- The file that is found last comes from a path behind which no other one gives such a file. -/
theorem exists_last {Related : Text → Contribution → Prop} {wanted : ProjectFile → Bool}
    {paths : List Text} {contributions : List Contribution} {file : ProjectFile}
    (outcomes : List.Forall₂ Related paths contributions)
    (found : (contributions.filterMap Contribution.file?).reverse.find? wanted = some file) :
    ∃ before path after contribution, paths = before ++ path :: after ∧ Related path contribution ∧
      contribution.file? = some file ∧ wanted file = true ∧
      ∀ later ∈ after, ∃ extra, Related later extra ∧ ∀ other ∈ extra.file?, ¬ wanted other = true := by
  induction outcomes with
  | nil => cases found
  | @cons path contribution paths contributions own others induction =>
      cases behind : (contributions.filterMap Contribution.file?).reverse.find? wanted with
      | some last =>
          have same : last = file := by
            cases given : contribution.file? <;> simpa [given, behind] using found
          obtain ⟨before, script, after, taken, split, rest⟩ := induction (same ▸ behind)
          exact ⟨path :: before, script, after, taken, by rw [split]; rfl, rest⟩
      | none =>
          have held : contribution.file? = some file ∧ wanted file = true := by
            cases given : contribution.file? with
            | none => simp [given, behind] at found
            | some own =>
                simp only [List.filterMap_cons_some given, List.reverse_cons, List.find?_append, behind,
                  Option.none_or, List.find?_singleton, Option.ite_none_right_eq_some,
                  Option.some.injEq] at found
                obtain ⟨fits, rfl⟩ := found
                exact ⟨rfl, fits⟩
          refine ⟨[], path, paths, contribution, rfl, own, held.1, held.2, ?_⟩
          intro later member
          obtain ⟨extra, listed, related⟩ := exists_contribution others later member
          refine ⟨extra, related, ?_⟩
          intro other given
          apply List.find?_eq_none.mp behind
          exact List.mem_reverse.mpr (List.mem_filterMap.mpr ⟨extra, listed, given⟩)

/-- With an overlay under canonical paths, a script is read under its canonical path: in the editor
if this is its own path, and from disk otherwise. -/
theorem textOf_script {overlay : Table Text} {excludes : Excludes} {script text : Text}
    (formed : workspace.tree.WellFormed)
    (keyed : ∀ key, overlay.contains key = true → workspace.canonical key = key)
    (member : script ∈ scripts workspace.tree root excludes)
    (reads : workspace.textOf overlay script = .ok text) :
    (if script = workspace.canonical script then workspace.textOf overlay (workspace.canonical script)
      else workspace.read (workspace.canonical script)) = .ok text := by
  split
  next own => rw [← own, reads]
  next link =>
    have absent : overlay.get? script = none := by
      cases edited : overlay.get? script with
      | none => rfl
      | some other =>
          have kept := keyed script ((Table.contains_iff _ _).mpr ⟨other, edited⟩)
          exact absurd kept.symm link
    rw [textOf, absent] at reads
    exact read_canonical formed (absolute_script formed member) reads

/-- Where the text of a file comes from. The last script that leads to the file and is added decides:
its text is that of the editor if the script stands at the path of the file and the editor has it, and
that on disk otherwise; and the file holds what is read from this text. -/
theorem loadAll_texts (workspace : Workspace) (options : AnalysisOptions) (path : Text)
    (loading : Loading) (formed : workspace.tree.WellFormed)
    (keyed : ∀ key, options.overlay.contains key = true → workspace.canonical key = key)
    (loaded : workspace.loadAll options path = .ok loading) (key : Text) (file : ProjectFile)
    (held : loading.project.files.get? key = some file) :
    ∃ root excludes before script after text contents,
      workspace.root path = .ok root ∧ Excludes.parse options.exclude = .ok excludes ∧
      scripts workspace.tree root excludes = before ++ script :: after ∧
      workspace.canonical script = key ∧
      (∀ later ∈ after, workspace.canonical later = key → ∀ contribution,
        ¬ workspace.Outcome options.overlay (nameBelow root later) later .added contribution) ∧
      (if script = key then workspace.textOf options.overlay key else workspace.read key) = .ok text ∧
      Script.read text = .ok contents ∧ file.path = key ∧ file.source = text.dropMark ∧
      file.definitions = contents.definitions ++ ProjectFile.strictMarks contents.usages ∧
      file.usages = contents.usages ∧ file.testcases = contents.testcases := by
  obtain ⟨root, rooted, loaded⟩ := Except.exists_of_bind loaded
  split at loaded
  next => cases loaded
  next excludes parsed =>
    obtain ⟨contributions, outcomes, run⟩ :=
      exists_contributions (scripts workspace.tree root excludes) ⟨Project.empty root, []⟩ rfl
    have whole : contributions.foldl Loading.accept ⟨Project.empty root, []⟩ = loading :=
      run.symm.trans (Except.ok.inj loaded)
    rw [← whole, files_accepts] at held
    obtain ⟨before, script, after, contribution, split, ⟨ending, outcome, -⟩, given, here, latest⟩ :=
      exists_last outcomes held
    have member : script ∈ scripts workspace.tree root excludes := by
      rw [split]
      simp
    have named : file.path = key := of_decide_eq_true here
    cases outcome with
    | unreadable => cases given
    | malformed => cases given
    | stopped => cases given
    | @added text contents problems file reads accepted accounts sound complete stands source
        definitions usages testcases =>
        obtain rfl := Option.some.inj given
        obtain rfl : workspace.canonical script = key := stands.symm.trans named
        refine ⟨root, excludes, before, script, after, text, contents, rooted, parsed, split, rfl, ?_,
          textOf_script formed keyed member reads, accepted, stands, source, definitions, usages,
          testcases⟩
        intro later behind same extra added
        obtain ⟨other, ⟨last, outcome, -⟩, absent⟩ := latest later behind
        obtain rfl : last = .added := added.unique outcome
        cases outcome with
        | added _ _ _ _ _ stands => exact absent _ rfl (decide_eq_true (stands.trans same))

/-- A script that is open in an editor, with a link to it behind it. -/
def desk : Workspace where
  tree := [("/w/a.ps1", .file "function Old \x7b\x7d"), ("/w/b.ps1", .link "a.ps1")].foldl
    (fun tree (path, entry) => tree.put (Text.ofString path) entry) .empty
  working := "/"

def deskOptions : AnalysisOptions :=
  ⟨⟨.empty, .empty⟩, [], (∅ : Table Text).insert "/w/a.ps1" "function New \x7b\x7d"⟩

theorem desk_formed : desk.tree.WellFormed := by decide +kernel

theorem desk_keyed : ∀ key, deskOptions.overlay.contains key = true → desk.canonical key = key := by
  intro key edited
  have listed := (Table.mem_keys _ _).mpr edited
  have keys : deskOptions.overlay.keys = [Text.ofString "/w/a.ps1"] := by decide +kernel
  rw [keys, List.mem_singleton] at listed
  rw [listed]
  decide +kernel

theorem desk_loaded : ∃ loading file, desk.loadAll deskOptions "/w" = .ok loading ∧
    loading.project.files.get? "/w/a.ps1" = some file ∧ file.path = "/w/a.ps1" ∧
    file.source = "function Old \x7b\x7d" := by
  have outcome : (desk.loadAll deskOptions "/w").toOption.bind (fun loading =>
      (loading.project.files.get? "/w/a.ps1").map fun file => (file.path, file.source)) =
      some (Text.ofString "/w/a.ps1", Text.ofString "function Old \x7b\x7d") := by
    decide +kernel
  obtain ⟨loading, loaded, outcome⟩ := Except.exists_of_toOption_bind outcome
  obtain ⟨file, held, same⟩ := Option.map_eq_some_iff.mp outcome
  obtain ⟨path, source⟩ := Prod.mk.inj same
  exact ⟨loading, file, loaded, held, path, source⟩

theorem desk_texts :
    ∃ loading file, desk.loadAll deskOptions "/w" = .ok loading ∧
      loading.project.files.get? "/w/a.ps1" = some file ∧
      ∃ script text, desk.canonical script = "/w/a.ps1" ∧
        (if script = Text.ofString "/w/a.ps1" then desk.textOf deskOptions.overlay "/w/a.ps1"
          else desk.read "/w/a.ps1") = .ok text ∧ file.source = text.dropMark := by
  obtain ⟨loading, file, loaded, held, -, -⟩ := desk_loaded
  obtain ⟨-, -, -, script, -, text, -, -, -, -, leads, -, reads, -, -, source, -⟩ :=
    loadAll_texts desk deskOptions "/w" loading desk_formed desk_keyed loaded _ file held
  exact ⟨loading, file, loaded, held, script, text, leads, reads, source⟩

/-- The link comes behind the script, so the text on disk replaces that of the editor. -/
theorem desk_overlay_lost :
    (∀ key, deskOptions.overlay.contains key = true → desk.canonical key = key) ∧
    ∃ loading file text, desk.loadAll deskOptions "/w" = .ok loading ∧
      loading.project.files.get? "/w/a.ps1" = some file ∧ file.path = "/w/a.ps1" ∧
      deskOptions.overlay.get? "/w/a.ps1" = some text ∧ file.source ≠ text.dropMark := by
  obtain ⟨loading, file, loaded, held, path, source⟩ := desk_loaded
  refine ⟨desk_keyed, loading, file, "function New \x7b\x7d", loaded, held, path, by decide +kernel, ?_⟩
  rw [source]
  decide +kernel

end ScopeLint.Workspace
