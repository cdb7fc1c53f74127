import ScopeLint.Proofs.Project.StrictMode

/-!
What becomes of every path and every import line when a workspace is loaded. A line either stands in
the table of imports, as the first one that leads to its file, or gives one problem; a path is
unreadable, malformed, stopped by a broken import or added. What a run reports and keeps is what its
paths contribute, one after the other.
-/

namespace ScopeLint

namespace Workspace

section Lines

variable (workspace : Workspace) (overlay : Table Text) (path name : Text)

def importedFile? (line : Import) : Option Text :=
  (importTarget? path line.importee).bind fun target =>
    if workspace.isFile overlay target then some (workspace.canonical target) else none

/-- The line names a place where no file is. -/
def Broken (line : Import) : Prop :=
  ∃ target, importTarget? path line.importee = some target ∧ workspace.isFile overlay target = false

def importProblem? (earlier : List Import) (line : Import) : Option Problem :=
  let problem := fun (kind : ProblemKind) (target : Text) =>
    some (Problem.mk kind name path line.span line.importee.text target)
  match importTarget? path line.importee with
  | none => problem .unrecognizedImport []
  | some target =>
      if !workspace.isFile overlay target then problem .missingImport target
      else if earlier.any fun other =>
          workspace.importedFile? overlay path other = some (workspace.canonical target) then
        problem .duplicateImport target
      else none

/-- The problem is that of the line, and its kind says what is wrong with the line. -/
structure Describes (earlier : List Import) (line : Import) (problem : Problem) : Prop where
  cause :
    (problem.kind = .unrecognizedImport ∧ importTarget? path line.importee = none) ∨
    (problem.kind = .missingImport ∧ importTarget? path line.importee = some problem.target ∧
      workspace.isFile overlay problem.target = false) ∨
    (problem.kind = .duplicateImport ∧ importTarget? path line.importee = some problem.target ∧
      ∃ file, workspace.importedFile? overlay path line = some file ∧
        ∃ other ∈ earlier, workspace.importedFile? overlay path other = some file)
  span : problem.span = line.span
  text : problem.text = line.importee.text
  name : problem.name = name
  path : problem.path = path

/-- Under a file stands the first of some lines that leads to it. -/
def FirstLines (lines : List Import) (table : Table Import) : Prop :=
  ∀ file, table.get? file =
    lines.find? fun line => workspace.importedFile? overlay path line = some file

/-- The lines of a file are accounted for by a table of imports and a list of problems. -/
structure Accounts (lines : List Import) (table : Table Import) (problems : List Problem) :
    Prop where
  entries : workspace.FirstLines overlay path lines table
  /-- Every line gives its problem or none, in the order of the lines. -/
  problems : problems = lines.zipIdx.filterMap fun (line, index) =>
    workspace.importProblem? overlay path name (lines.take index) line
  /-- The lines without a problem are those that stand in the table. -/
  stands : ∀ index line, lines[index]? = some line →
    (workspace.importProblem? overlay path name (lines.take index) line = none ↔
      ∃ file, workspace.importedFile? overlay path line = some file ∧
        table.get? file = some line ∧
        ∀ other ∈ lines.take index, workspace.importedFile? overlay path other ≠ some file)
  described : ∀ earlier line problem,
    workspace.importProblem? overlay path name earlier line = some problem →
    workspace.Describes overlay path name earlier line problem

end Lines

variable {workspace : Workspace} {overlay : Table Text} {path name : Text}

theorem describes_importProblem {earlier : List Import} {line : Import} {problem : Problem}
    (given : workspace.importProblem? overlay path name earlier line = some problem) :
    workspace.Describes overlay path name earlier line problem := by
  unfold importProblem? at given
  dsimp only at given
  split at given
  next unrecognized =>
    obtain rfl := Option.some.inj given
    exact ⟨.inl ⟨rfl, unrecognized⟩, rfl, rfl, rfl, rfl⟩
  next target leads =>
    split at given
    next missing =>
      obtain rfl := Option.some.inj given
      exact ⟨.inr (.inl ⟨rfl, leads, by simpa using missing⟩), rfl, rfl, rfl, rfl⟩
    next there =>
      split at given
      next again =>
        obtain rfl := Option.some.inj given
        have file : workspace.importedFile? overlay path line = some (workspace.canonical target) := by
          simp_all [importedFile?]
        exact ⟨.inr (.inr ⟨rfl, leads, _, file, by simpa using again⟩), rfl, rfl, rfl, rfl⟩
      next => cases given

theorem importProblem_eq_none {earlier : List Import} {line : Import} :
    workspace.importProblem? overlay path name earlier line = none ↔
      ∃ file, workspace.importedFile? overlay path line = some file ∧
        ∀ other ∈ earlier, workspace.importedFile? overlay path other ≠ some file := by
  unfold importProblem?
  dsimp only
  split
  next unrecognized => simp [importedFile?, unrecognized]
  next target leads =>
    split
    next missing => simp_all [importedFile?]
    next there =>
      have file : workspace.importedFile? overlay path line = some (workspace.canonical target) := by
        simp_all [importedFile?]
      rw [file]
      simp

theorem kind_importProblem {earlier : List Import} {line : Import} :
    (∃ problem, workspace.importProblem? overlay path name earlier line = some problem ∧
      problem.kind = .missingImport) ↔ workspace.Broken overlay path line := by
  unfold importProblem? Broken
  dsimp only
  split
  next unrecognized => simp [unrecognized]
  next target leads =>
    split
    next missing => simp_all
    next there =>
      split <;> simp_all

theorem FirstLines.contains_eq {earlier : List Import} {table : Table Import}
    (first : workspace.FirstLines overlay path earlier table) (file : Text) :
    table.contains file =
      earlier.any fun line => workspace.importedFile? overlay path line = some file := by
  rw [Table.contains, first file]
  exact List.isSome_find?

theorem problems_resolveImport {earlier : List Import} {imports : Imports}
    (first : workspace.FirstLines overlay path earlier imports.table) (line : Import) :
    (workspace.resolveImport overlay path name imports line).problems =
      imports.problems ++ (workspace.importProblem? overlay path name earlier line).toList := by
  unfold resolveImport importProblem?
  dsimp only
  cases importTarget? path line.importee with
  | none => rfl
  | some target =>
      dsimp only
      rw [first.contains_eq]
      split
      next => rfl
      next =>
        split
        next => rfl
        next => simp

theorem firstLines_resolveImport {earlier : List Import} {imports : Imports}
    (first : workspace.FirstLines overlay path earlier imports.table) (line : Import) :
    workspace.FirstLines overlay path (earlier ++ [line])
      (workspace.resolveImport overlay path name imports line).table := by
  intro file
  rw [List.find?_append, ← first file, List.find?_singleton]
  unfold resolveImport importedFile?
  dsimp only
  split
  next unrecognized => simp [unrecognized]
  next target leads =>
    rw [leads, Option.bind_some]
    split
    next missing => simp_all
    next there =>
      -- The line is entered only where no earlier line was found.
      split
      next again =>
        obtain ⟨kept, found⟩ := (Table.contains_iff _ _).mp again
        by_cases same : workspace.canonical target = file
        · rw [same] at found
          simp [found]
        · simp [same]
      next fresh =>
        rw [Table.get_insert]
        by_cases same : workspace.canonical target = file
        · subst same
          have absent : imports.table.get? (workspace.canonical target) = none := by
            simpa [Table.contains] using fresh
          simp_all
        · simp [same, Ne.symm same]

theorem problems_append (problem? : List Import → Import → Option Problem)
    (lines : List Import) (line : Import) :
    ((lines ++ [line]).zipIdx.filterMap fun (other, index) =>
        problem? ((lines ++ [line]).take index) other) =
      (lines.zipIdx.filterMap fun (other, index) => problem? (lines.take index) other) ++
        (problem? lines line).toList := by
  rw [List.zipIdx_append, List.filterMap_append]
  apply congrArg₂
  · apply List.filterMap_congr
    intro ⟨other, index⟩ member
    have below : index < lines.length := (List.mem_zipIdx' member).1
    simp only [List.take_append_of_le_length below.le]
  · cases given : problem? lines line <;> simp [given]

theorem resolveImports_append (lines : List Import) (line : Import) :
    workspace.resolveImports overlay path name (lines ++ [line]) =
      workspace.resolveImport overlay path name
        (workspace.resolveImports overlay path name lines) line := by
  simp [resolveImports]

theorem firstLines_resolveImports (lines : List Import) :
    workspace.FirstLines overlay path lines
      (workspace.resolveImports overlay path name lines).table := by
  induction lines using List.reverseRecOn with
  | nil =>
      intro file
      rfl
  | append_singleton lines line induction =>
      rw [resolveImports_append]
      exact firstLines_resolveImport induction line

theorem problems_resolveImports (lines : List Import) :
    (workspace.resolveImports overlay path name lines).problems =
      lines.zipIdx.filterMap fun (line, index) =>
        workspace.importProblem? overlay path name (lines.take index) line := by
  induction lines using List.reverseRecOn with
  | nil => rfl
  | append_singleton lines line induction =>
      rw [problems_append, resolveImports_append,
        problems_resolveImport (firstLines_resolveImports lines), induction]

theorem accounts_resolveImports (lines : List Import) :
    workspace.Accounts overlay path name lines
      (workspace.resolveImports overlay path name lines).table
      (workspace.resolveImports overlay path name lines).problems where
  entries := firstLines_resolveImports lines
  problems := problems_resolveImports lines
  stands := by
    intro index line at_index
    rw [importProblem_eq_none]
    apply exists_congr
    intro file
    apply and_congr_right
    intro leads
    apply Iff.symm
    apply and_iff_right_of_imp
    intro fresh
    -- No line in front leads to the file, so the search for the first one stops here.
    rw [firstLines_resolveImports lines file]
    have cut : lines = lines.take index ++ line :: lines.drop (index + 1) := by
      obtain ⟨below, rfl⟩ := List.getElem?_eq_some_iff.mp at_index
      simp
    have nowhere : ((lines.take index).find? fun other =>
        workspace.importedFile? overlay path other = some file) = none := by
      simpa using fresh
    rw [cut, List.find?_append, nowhere]
    simp [leads]
  described := by
    intro earlier line problem given
    exact describes_importProblem given

namespace Accounts

variable {lines : List Import} {table : Table Import} {problems : List Problem}

/-- Some problem is about a missing file just if some line is broken. -/
theorem missing_iff (accounts : workspace.Accounts overlay path name lines table problems) :
    (∃ problem ∈ problems, problem.kind = .missingImport) ↔
      ∃ line ∈ lines, workspace.Broken overlay path line := by
  rw [accounts.problems]
  constructor
  · rintro ⟨problem, member, missing⟩
    obtain ⟨⟨line, index⟩, listed, given⟩ := List.mem_filterMap.mp member
    have there := (List.mem_zipIdx' listed).2
    exact ⟨line, there ▸ List.getElem_mem _, kind_importProblem.mp ⟨problem, given, missing⟩⟩
  · rintro ⟨line, member, broken⟩
    obtain ⟨index, below, rfl⟩ := List.getElem_of_mem member
    obtain ⟨problem, given, missing⟩ := kind_importProblem.mpr broken
    refine ⟨problem, ?_, missing⟩
    apply List.mem_filterMap.mpr
    exact ⟨(lines[index], index), List.mk_mem_zipIdx_iff_getElem?.mpr (by simp [below]), given⟩

end Accounts

/-- What loading one path adds to a project and its log. -/
structure Contribution where
  problems : List Problem
  file? : Option ProjectFile
  entry : LogEntry

inductive Ending where
  | unreadable
  | malformed
  | stopped
  | added
  deriving DecidableEq

/-- How loading a path ends, and what it then contributes. -/
inductive Outcome (workspace : Workspace) (overlay : Table Text) (name path : Text) :
    Ending → Contribution → Prop where
  | unreadable {error : FileError} :
      workspace.textOf overlay path = .error error →
      Outcome workspace overlay name path .unreadable ⟨[], none,
        fileNote name .warning "Skipping unreadable file" [("error", .text error.message)]⟩
  | malformed {text : Text} {error : SyntaxError} :
      workspace.textOf overlay path = .ok text →
      Script.read text = .error error →
      Outcome workspace overlay name path .malformed
        ⟨[⟨.syntaxError, name, path, ⟨error.place, error.place⟩, error.fault.message, []⟩], none,
          fileNote name .debug "Syntax error" [("error", .text error.fault.message)]⟩
  | stopped {text : Text} {script : Script} {table : Table Import} {problems : List Problem} :
      workspace.textOf overlay path = .ok text →
      Script.read text = .ok script →
      workspace.Accounts overlay path name script.imports table problems →
      (∃ line ∈ script.imports, workspace.Broken overlay path line) →
      (∃ problem ∈ problems, problem.kind = .missingImport) →
      Outcome workspace overlay name path .stopped ⟨problems, none,
        fileNote name .info "Stopping analysis for this file because of import errors" []⟩
  | added {text : Text} {script : Script} {problems : List Problem} {file : ProjectFile} :
      workspace.textOf overlay path = .ok text →
      Script.read text = .ok script →
      workspace.Accounts overlay path name script.imports file.imports problems →
      (∀ line ∈ script.imports, ¬ workspace.Broken overlay path line) →
      (∀ problem ∈ problems, problem.kind ≠ .missingImport) →
      file.path = workspace.canonical path →
      file.source = text.dropMark →
      file.definitions = script.definitions ++ ProjectFile.strictMarks script.usages →
      file.usages = script.usages →
      file.testcases = script.testcases →
      Outcome workspace overlay name path .added ⟨problems, some file,
        fileNote name .debug "Parsed file" [("definitions", .number file.definitions.length),
          ("usages", .number file.usages.length), ("imports", .number file.imports.size)]⟩

/-- Every path has one ending. -/
theorem Outcome.unique {ending other : Ending} {contribution extra : Contribution}
    (outcome : workspace.Outcome overlay name path ending contribution)
    (again : workspace.Outcome overlay name path other extra) : other = ending := by
  cases outcome <;> cases again <;> grind

theorem root_addProblems (problems : List Problem) (project : Project) :
    (problems.foldl Project.addProblem project).root = project.root := by
  induction problems generalizing project with
  | nil => rfl
  | cons problem rest induction =>
      rw [List.foldl_cons, induction]
      rfl

theorem problems_addProblems (problems : List Problem) (project : Project) :
    (problems.foldl Project.addProblem project).problems = project.problems ++ problems := by
  induction problems generalizing project with
  | nil => simp
  | cons problem rest induction =>
      rw [List.foldl_cons, induction]
      simp [Project.addProblem]

namespace Loading

def accept (loading : Loading) (contribution : Contribution) : Loading :=
  let project := contribution.problems.foldl Project.addProblem loading.project
  note { loading with project := contribution.file?.elim project project.put } contribution.entry

theorem root_accept (loading : Loading) (contribution : Contribution) :
    (loading.accept contribution).project.root = loading.project.root := by
  obtain ⟨problems, file?, entry⟩ := contribution
  cases file? <;> exact root_addProblems problems loading.project

theorem problems_accept (loading : Loading) (contribution : Contribution) :
    (loading.accept contribution).project.problems =
      loading.project.problems ++ contribution.problems := by
  obtain ⟨problems, file?, entry⟩ := contribution
  cases file? <;> exact problems_addProblems problems loading.project

theorem files_accept (loading : Loading) (contribution : Contribution) :
    (loading.accept contribution).project.files =
      contribution.file?.elim loading.project.files fun file =>
        loading.project.files.insert file.path file := by
  obtain ⟨problems, file?, entry⟩ := contribution
  cases file? with
  | none => exact files_addProblems problems loading.project
  | some file =>
      apply congrArg fun files : Table ProjectFile => files.insert file.path file
      exact files_addProblems problems loading.project

end Loading

/-- Loading one path adds what the path contributes, whatever was loaded before. -/
theorem exists_outcome (loading : Loading) (path : Text) :
    ∃ ending contribution,
      workspace.Outcome overlay (loading.project.displayName path) path ending contribution ∧
        workspace.load overlay loading path = loading.accept contribution := by
  unfold load
  dsimp only
  split
  next error unreadable => exact ⟨.unreadable, _, .unreadable unreadable, rfl⟩
  next text there =>
    split
    next error malformed => exact ⟨.malformed, _, .malformed there malformed, rfl⟩
    next script accepted =>
      let imports := workspace.resolveImports overlay path (loading.project.displayName path)
        script.imports
      have accounts : workspace.Accounts overlay path (loading.project.displayName path)
          script.imports imports.table imports.problems := accounts_resolveImports script.imports
      split
      next lacking =>
        have missing : ∃ problem ∈ imports.problems, problem.kind = .missingImport := by
          simpa using lacking
        have broken := accounts.missing_iff.mp missing
        exact ⟨.stopped, _, .stopped there accepted accounts broken missing, rfl⟩
      next whole =>
        have complete : ∀ problem ∈ imports.problems, problem.kind ≠ .missingImport := by
          simpa using whole
        have sound : ∀ line ∈ script.imports, ¬ workspace.Broken overlay path line := by
          intro line member broken
          obtain ⟨problem, given, missing⟩ := accounts.missing_iff.mpr ⟨line, member, broken⟩
          exact complete problem given missing
        rw [ProjectFile.markStrictMode_eq]
        exact ⟨.added, _,
          .added there accepted accounts sound complete rfl rfl rfl rfl rfl, rfl⟩

theorem displayName_eq {project other : Project} (same : project.root = other.root) (path : Text) :
    project.displayName path = other.displayName path := by
  unfold Project.displayName
  rw [same]

def nameBelow (root path : Text) : Text := (Project.empty root).displayName path

/-- Loading paths one after the other adds what each of them contributes. -/
theorem exists_contributions {root : Text} (paths : List Text) (loading : Loading)
    (below : loading.project.root = root) :
    ∃ contributions,
      List.Forall₂ (fun path contribution =>
        ∃! ending, workspace.Outcome overlay (nameBelow root path) path ending contribution)
        paths contributions ∧
      paths.foldl (workspace.load overlay) loading = contributions.foldl Loading.accept loading := by
  induction paths generalizing loading with
  | nil => exact ⟨[], .nil, rfl⟩
  | cons path rest induction =>
      obtain ⟨ending, contribution, outcome, step⟩ := exists_outcome loading path
      have named : loading.project.displayName path = nameBelow root path := displayName_eq below path
      rw [named] at outcome
      have root_next : (loading.accept contribution).project.root = root :=
        (loading.root_accept contribution).trans below
      obtain ⟨contributions, outcomes, run⟩ := induction _ root_next
      refine ⟨contribution :: contributions, .cons ?_ outcomes, ?_⟩
      · exact ⟨ending, outcome, fun other again => outcome.unique again⟩
      · rw [List.foldl_cons, List.foldl_cons, step, run]

section Run

variable (contributions : List Contribution) (loading : Loading)

theorem problems_accepts :
    (contributions.foldl Loading.accept loading).project.problems =
      loading.project.problems ++ contributions.flatMap Contribution.problems := by
  induction contributions generalizing loading with
  | nil => simp
  | cons contribution rest induction =>
      rw [List.foldl_cons, induction, Loading.problems_accept, List.flatMap_cons, List.append_assoc]

theorem log_accepts :
    (contributions.foldl Loading.accept loading).log =
      loading.log ++ contributions.map Contribution.entry := by
  induction contributions generalizing loading with
  | nil => simp
  | cons contribution rest induction =>
      rw [List.foldl_cons, induction]
      simp [Loading.accept, Loading.note]

/-- Under a path stands the file that was added there last. -/
theorem files_accepts (root path : Text) :
    (contributions.foldl Loading.accept ⟨Project.empty root, []⟩).project.files.get? path =
      (contributions.filterMap Contribution.file?).reverse.find? fun file => file.path = path := by
  induction contributions using List.reverseRecOn with
  | nil => rfl
  | append_singleton contributions contribution induction =>
      rw [List.foldl_append, List.foldl_cons, List.foldl_nil, Loading.files_accept,
        List.filterMap_append, List.reverse_append, List.find?_append]
      cases added : contribution.file? with
      | none => simpa [added] using induction
      | some file =>
          rw [Option.elim_some, Table.get_insert, induction]
          by_cases same : file.path = path
          · simp [added, same]
          · simp [added, same, Ne.symm same]

end Run

/-- Loading loses nothing silently. Each script below the root has exactly one ending, and all that
is kept, reported and logged is what the scripts contribute, in their order. -/
theorem loadAll_accounts (workspace : Workspace) (options : AnalysisOptions) (path : Text)
    (loading : Loading) (loaded : workspace.loadAll options path = .ok loading) :
    ∃ root excludes contributions,
      workspace.root path = .ok root ∧ Excludes.parse options.exclude = .ok excludes ∧
      List.Forall₂ (fun script contribution =>
        ∃! ending, workspace.Outcome options.overlay (nameBelow root script) script ending
          contribution)
        (scripts workspace.tree root excludes) contributions ∧
      loading.project.problems = contributions.flatMap Contribution.problems ∧
      (∀ key, loading.project.files.get? key =
        (contributions.filterMap Contribution.file?).reverse.find? fun file => file.path = key) ∧
      loading.log = contributions.map Contribution.entry := by
  obtain ⟨root, rooted, loaded⟩ := Except.exists_of_bind loaded
  split at loaded
  next => cases loaded
  next excludes parsed =>
    obtain ⟨contributions, outcomes, run⟩ :=
      exists_contributions (scripts workspace.tree root excludes) ⟨Project.empty root, []⟩ rfl
    have whole : contributions.foldl Loading.accept ⟨Project.empty root, []⟩ = loading :=
      run.symm.trans (Except.ok.inj loaded)
    refine ⟨root, excludes, contributions, rooted, parsed, outcomes, ?_, ?_, ?_⟩
    · rw [← whole]
      exact problems_accepts contributions _
    · intro key
      rw [← whole]
      exact files_accepts contributions root key
    · rw [← whole]
      exact log_accepts contributions _

/-- A script that imports one file under two names and another that is gone, beside scripts that
cannot be read. -/
def stall : Workspace where
  tree := [("/w/alias.ps1", .link "lib.ps1"), ("/w/bad.ps1", .file "("), ("/w/lib.ps1", .file "Run-It"),
    ("/w/lost.ps1", .link "nowhere.ps1"),
    ("/w/main.ps1", .file
      ". $PSScriptRoot/lib.ps1\n. $PSScriptRoot/alias.ps1\n. $PSScriptRoot/gone.ps1")].foldl
      (fun tree (path, entry) => tree.put (Text.ofString path) entry) .empty
  working := "/"

theorem stall_accounts :
    ∃ loading, stall.loadAll shopOptions "/w" = .ok loading ∧
      loading.project.problems.map Problem.kind = [.syntaxError, .duplicateImport, .missingImport] ∧
      loading.project.paths = [Text.ofString "/w/lib.ps1"] ∧
      ∃ contributions : List Contribution, contributions.length = 5 ∧
        loading.project.problems = contributions.flatMap Contribution.problems ∧
        loading.log = contributions.map Contribution.entry := by
  have outcome : (stall.loadAll shopOptions "/w").toOption.map (fun loading =>
      (loading.project.problems.map Problem.kind, loading.project.paths, loading.log.length)) =
      some ([.syntaxError, .duplicateImport, .missingImport], [Text.ofString "/w/lib.ps1"], 5) := by
    decide +kernel
  obtain ⟨loading, loaded, same⟩ := Except.exists_of_toOption_map outcome
  obtain ⟨kinds, rest⟩ := Prod.mk.inj same
  obtain ⟨paths, logged⟩ := Prod.mk.inj rest
  obtain ⟨root, excludes, contributions, -, -, -, problems, -, log⟩ :=
    loadAll_accounts stall shopOptions "/w" loading loaded
  have five : contributions.length = 5 := by simpa [log] using logged
  exact ⟨loading, loaded, kinds, paths, contributions, five, problems, log⟩

end Workspace

end ScopeLint
