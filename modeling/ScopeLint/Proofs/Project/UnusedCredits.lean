import ScopeLint.Proofs.Project.CreditRule
import ScopeLint.Proofs.Project.Reimport

/-!
Which imports are unused. They are the direct imports that nothing credits, in path order; what is
credited is a set, given by the usages that refer to other files and by strict mode. So neither the
order nor the number of the usages matters, nor the text around them.
-/

namespace ScopeLint

namespace Project

/-- The imports of a file that something credits: a usage that is looked up and refers to another
file, or the mark of strict mode, if no file of the project imports the file. -/
inductive Credited (project : Project) (scopes : Table Scope) (known : KnownCommands)
    (file : ProjectFile) (scope : Scope) (next : Text) : Prop
  | usage {usage : Usage} {origin : Origin} (used : usage ∈ file.usages)
      (looked : usage.item.kind = .classType ∨ known.contains usage.item.name = false)
      (refers : scope.lookup usage.item = some origin) (foreign : origin.file ≠ file.path)
      (credited : project.CreditedFor scopes scope usage.item.key origin.file next)
  | strictMode {origin : Origin}
      (entry : ∀ other importer, project.files.get? other = some importer →
        importer.imports.contains file.path = false)
      (refers : scope.lookup ScopeLint.strictMode = some origin) (foreign : origin.file ≠ file.path)
      (credited : project.CreditedFor scopes scope ScopeLint.strictMode.key origin.file next)

end Project

namespace FileView

variable {view : FileView} {next : Text}

theorem credits_home {key : Key} {origin : Origin} (home : origin.file = view.file.path) :
    view.credits key origin = [] := by
  rw [credits, if_pos home]

theorem mem_usageCredits :
    next ∈ view.usageCredits ↔ ∃ usage ∈ view.file.usages, ∃ origin,
      view.origin? usage = some origin ∧ next ∈ view.credits usage.item.key origin := by
  rw [usageCredits, List.mem_flatMap]
  refine exists_congr fun usage => and_congr_right fun _ => ?_
  cases view.origin? usage <;> simp

theorem mem_strictCredits :
    next ∈ view.strictCredits ↔ view.isEntry = true ∧ ∃ origin,
      view.scope.lookup strictMode = some origin ∧ next ∈ view.credits strictMode.key origin := by
  rw [strictCredits]
  split
  next entry => cases view.scope.lookup strictMode <;> simp [entry]
  next inner => simp [inner]

end FileView

namespace Project

section Rule

variable {project : Project} {acyclic : project.Acyclic} {path next : Text} {view : FileView}

namespace Shows

/-- An import forwards a definition if its key is visible there and refers to the same file. -/
theorem forwards_iff (shows : project.Shows acyclic path view) {key : Key} {target : Text} :
    view.scope.Forwards view.scopes key target next ↔ project.Imports path next ∧
      (project.visible acyclic next key).map Origin.file = some target := by
  -- Only the file of an origin counts, so any definition will do.
  have listed : next ∈ view.forwarders key ⟨target, default⟩ ↔
      view.scope.Forwards view.scopes key target next := shows.mem_forwarders_iff
  rw [← listed, shows.mem_forwarders]

theorem isEntry_iff (shows : project.Shows acyclic path view) :
    view.isEntry = true ↔ ∀ other importer, project.files.get? other = some importer →
      importer.imports.contains path = false := by
  rw [FileView.isEntry, shows.within, shows.path_eq, Bool.not_eq_true', ← Bool.not_eq_true,
    isImported_iff]
  simp

/-- Credits come from other files only, and there they follow the rule. -/
theorem mem_credits_iff (shows : project.Shows acyclic path view) (named : project.Named)
    {key : Key} {origin : Origin} (seen : view.scope.find? key = some origin) :
    next ∈ view.credits key origin ↔ origin.file ≠ path ∧
      project.CreditedFor view.scopes view.scope key origin.file next := by
  by_cases home : origin.file = path
  · rw [FileView.credits_home (home.trans shows.path_eq.symm)]
    simp [home]
  · rw [shows.mem_credits named seen home]
    simp [home]

theorem credited_iff (shows : project.Shows acyclic path view) (named : project.Named) :
    next ∈ view.usageCredits ++ view.strictCredits ↔
      project.Credited view.scopes view.known view.file view.scope next := by
  rw [List.mem_append, FileView.mem_usageCredits, FileView.mem_strictCredits, shows.isEntry_iff]
  constructor
  · rintro (⟨usage, used, origin, found, member⟩ | ⟨entry, origin, refers, member⟩)
    · obtain ⟨looked, refers⟩ := (view.origin_iff usage origin).mp found
      obtain ⟨foreign, credited⟩ := (shows.mem_credits_iff named refers).mp member
      exact .usage used looked refers (by rwa [shows.path_eq]) credited
    · obtain ⟨foreign, credited⟩ := (shows.mem_credits_iff named refers).mp member
      exact .strictMode (by rwa [shows.path_eq]) refers (by rwa [shows.path_eq]) credited
  · intro credited
    cases credited with
    | @usage usage origin used looked refers foreign credited =>
        rw [shows.path_eq] at foreign
        exact .inl ⟨usage, used, origin, (view.origin_iff usage origin).mpr ⟨looked, refers⟩,
          (shows.mem_credits_iff named refers).mpr ⟨foreign, credited⟩⟩
    | @strictMode origin entry refers foreign credited =>
        rw [shows.path_eq] at entry foreign
        exact .inr ⟨entry, origin, refers,
          (shows.mem_credits_iff named refers).mpr ⟨foreign, credited⟩⟩

theorem mem_unusedImports (shows : project.Shows acyclic path view) (named : project.Named)
    (plain : view.file.isImportBag = false) (unused : UnusedImport) :
    unused ∈ view.unusedImports ↔
      view.file.imports.get? unused.path = some unused.line ∧ unused.path ∈ view.scope.direct ∧
        ¬ project.Credited view.scopes view.known view.file view.scope unused.path := by
  simp only [FileView.unusedImports, plain, Bool.false_eq_true, if_false, List.mem_map,
    List.mem_filter, Bool.and_eq_true, Bool.not_eq_true', FileView.isDirect, List.elem_eq_mem,
    decide_eq_true_eq, decide_eq_false_iff_not, shows.credited_iff named, Table.get_eq_some_iff]
  constructor
  · rintro ⟨entry, ⟨listed, direct, idle⟩, rfl⟩
    exact ⟨listed, direct, idle⟩
  · rintro ⟨listed, direct, idle⟩
    exact ⟨_, ⟨listed, direct, idle⟩, rfl⟩

end Shows

theorem increasing_unusedImports (view : FileView) :
    (view.unusedImports.map UnusedImport.path).Pairwise (· < ·) := by
  rw [FileView.unusedImports]
  split
  · exact List.Pairwise.nil
  · rw [List.map_map]
    exact List.pairwise_map.mpr (view.file.imports.increasing.filter _)

end Rule

end Project

/-- A file that imports and defines the same and uses the same items at the same places, in any
order and any number of times, whatever its text. -/
structure ProjectFile.Retouches (twin file : ProjectFile) : Prop where
  path : twin.path = file.path
  imports : twin.imports = file.imports
  definitions : twin.definitions = file.definitions
  usages : ∀ usage, usage ∈ twin.usages ↔ usage ∈ file.usages

theorem ProjectFile.Retouches.isImportBag_eq {twin file : ProjectFile}
    (retouches : twin.Retouches file) : twin.isImportBag = file.isImportBag := by
  rw [isImportBag, isImportBag, retouches.definitions]

namespace Project

structure SameShape (left right : Project) : Prop where
  has : ∀ path, left.has path = right.has path
  imports : ∀ path, left.presentImports path = right.presentImports path
  own : ∀ path key, left.ownOrigin? path key = right.ownOrigin? path key
  bags : ∀ path, left.IsBag path ↔ right.IsBag path
  imported : ∀ path, left.isImported path = right.isImported path

namespace SameShape

variable {left right : Project}

theorem symm (same : left.SameShape right) : right.SameShape left where
  has := fun path => (same.has path).symm
  imports := fun path => (same.imports path).symm
  own := fun path key => (same.own path key).symm
  bags := fun path => (same.bags path).symm
  imported := fun path => (same.imported path).symm

theorem imports_eq (same : left.SameShape right) : left.Imports = right.Imports := by
  funext path next
  rw [Imports, Imports, same.imports]

theorem acyclic (same : left.SameShape right) (acyclic : left.Acyclic) : right.Acyclic := by
  rw [Acyclic, ← same.imports_eq]
  exact acyclic

theorem named (same : left.SameShape right) (named : left.Named) : right.Named := by
  intro path present
  rw [← same.has] at present
  exact named path present

theorem chain (same : left.SameShape right) {source target : Text} {files : List Text}
    (chained : left.Chain source target files) : right.Chain source target files :=
  ⟨chained.first, chained.last, same.imports_eq ▸ chained.steps⟩

section Views

variable {acyclic : left.Acyclic} {reacyclic : right.Acyclic} {path target next : Text}
  {view now : FileView} {key : Key}

theorem find_eq (same : left.SameShape right) (shows : left.Shows acyclic path view)
    (showsNow : right.Shows reacyclic path now) (key : Key) :
    view.scope.find? key = now.scope.find? key := by
  rw [shows.scope.find, showsNow.scope.find]
  exact visible_congr acyclic reacyclic path key fun other _ => ⟨same.imports other, same.own other key⟩

theorem direct_eq (same : left.SameShape right) (shows : left.Shows acyclic path view)
    (showsNow : right.Shows reacyclic path now) : view.scope.direct = now.scope.direct := by
  rw [shows.scope.direct, showsNow.scope.direct, same.imports]

theorem forwards_iff (same : left.SameShape right) (shows : left.Shows acyclic path view)
    (showsNow : right.Shows reacyclic path now) :
    view.scope.Forwards view.scopes key target next ↔ now.scope.Forwards now.scopes key target next := by
  have visible := visible_congr acyclic reacyclic next key
    fun other _ => ⟨same.imports other, same.own other key⟩
  rw [shows.forwards_iff, showsNow.forwards_iff, visible, same.imports_eq]

theorem creditedFor (same : left.SameShape right) (shows : left.Shows acyclic path view)
    (showsNow : right.Shows reacyclic path now)
    (credited : left.CreditedFor view.scopes view.scope key target next) :
    right.CreditedFor now.scopes now.scope key target next := by
  have forwards (other : Text) : view.scope.Forwards view.scopes key target other ↔
      now.scope.Forwards now.scopes key target other := same.forwards_iff shows showsNow
  have direct := same.direct_eq shows showsNow
  cases credited with
  | direct near => exact .direct (direct ▸ near)
  | bag far shown bag =>
      exact .bag (direct ▸ far) ((forwards _).mp shown) ((same.bags _).mp bag)
  | nearest far plain shown closest =>
      refine .nearest (direct ▸ far) ?_ ((forwards _).mp shown) ?_
      · intro other shown bag
        exact plain other ((forwards other).mpr shown) ((same.bags other).mpr bag)
      · intro other chain shown chained
        obtain ⟨own, ownChained, nearer⟩ :=
          closest other chain ((forwards other).mpr shown) (same.symm.chain chained)
        exact ⟨own, same.chain ownChained, nearer⟩

theorem credited (same : left.SameShape right) (shows : left.Shows acyclic path view)
    (showsNow : right.Shows reacyclic path now) (known : view.known = now.known)
    (used : ∀ usage, usage ∈ view.file.usages → usage ∈ now.file.usages)
    (credited : left.Credited view.scopes view.known view.file view.scope next) :
    right.Credited now.scopes now.known now.file now.scope next := by
  have home : now.file.path = view.file.path := showsNow.path_eq.trans shows.path_eq.symm
  have lookup (item : Item) : now.scope.lookup item = view.scope.lookup item :=
    (same.find_eq shows showsNow item.key).symm
  cases credited with
  | usage member looked refers foreign credited =>
      refine .usage (used _ member) (known ▸ looked) ((lookup _).trans refers) ?_
        (same.creditedFor shows showsNow credited)
      rwa [home]
  | strictMode entry refers foreign credited =>
      refine .strictMode ?_ ((lookup _).trans refers) ?_ (same.creditedFor shows showsNow credited)
      · rw [shows.path_eq, ← shows.isEntry_iff, FileView.isEntry, shows.within, shows.path_eq] at entry
        rw [showsNow.path_eq, ← showsNow.isEntry_iff, FileView.isEntry, showsNow.within,
          showsNow.path_eq, ← same.imported]
        exact entry
      · rwa [home]

theorem unusedImports_eq (same : left.SameShape right) (shows : left.Shows acyclic path view)
    (showsNow : right.Shows reacyclic path now) (known : view.known = now.known)
    (named : left.Named) (retouches : now.file.Retouches view.file) :
    now.unusedImports = view.unusedImports := by
  have credited (next : Text) :
      next ∈ now.usageCredits ++ now.strictCredits ↔ next ∈ view.usageCredits ++ view.strictCredits := by
    rw [shows.credited_iff named, showsNow.credited_iff (same.named named)]
    exact ⟨same.symm.credited showsNow shows known.symm fun usage => (retouches.usages usage).mp,
      same.credited shows showsNow known fun usage => (retouches.usages usage).mpr⟩
  have direct : now.isDirect = view.isDirect := by
    funext next
    rw [FileView.isDirect, FileView.isDirect, same.direct_eq shows showsNow]
  simp only [FileView.unusedImports, retouches.isImportBag_eq, retouches.imports, direct,
    List.elem_eq_mem, credited]

end Views

end SameShape

section Retouching

variable {project : Project} {path : Text} {file twin : ProjectFile}
  (held : project.files.get? path = some file) (retouches : twin.Retouches file)

include held retouches

theorem get_put (other : Text) : (project.put twin).files.get? other =
    if other = path then some twin else project.files.get? other := by
  rw [put, Table.get_insert, retouches.path, path_of_get held]

theorem sameShape_put : project.SameShape (project.put twin) := by
  -- Whatever reads only imports and definitions of files reads the same.
  have read {Value : Type} (part : ProjectFile → Value) (same : part twin = part file)
      (other : Text) :
      (project.files.get? other).map part = ((project.put twin).files.get? other).map part := by
    rw [get_put held retouches]
    split
    next here => rw [here, held, Option.map_some, Option.map_some, same]
    next => rfl
  have has (other : Text) : project.has other = (project.put twin).has other := by
    have same := read (fun _ => ()) rfl other
    simpa [Project.has, Table.contains] using congrArg Option.isSome same
  have imports := read ProjectFile.imports retouches.imports
  refine ⟨has, ?_, ?_, ?_, ?_⟩
  · intro other
    have same := read ProjectFile.importPaths
      (by rw [ProjectFile.importPaths, ProjectFile.importPaths, retouches.imports]) other
    rw [presentImports, presentImports, importsOf, importsOf, same, funext has]
  · intro other key
    have same := read ProjectFile.definitions retouches.definitions other
    have bound (files : Option ProjectFile) :
        (files.bind fun file =>
          (file.definitions.find? fun definition => definition.item.key = key).map fun definition =>
            (⟨other, definition⟩ : Origin)) =
        (files.map ProjectFile.definitions).bind fun definitions =>
          (definitions.find? fun definition => definition.item.key = key).map fun definition =>
            ⟨other, definition⟩ := by
      cases files <;> rfl
    rw [ownOrigin?, ownOrigin?, bound, bound, same]
  · intro other
    have same := read ProjectFile.isImportBag retouches.isImportBag_eq other
    have isBag (project : Project) : project.IsBag other ↔
        (project.files.get? other).map ProjectFile.isImportBag = some true := by
      rw [Option.map_eq_some_iff, IsBag]
    rw [isBag, isBag, same]
  · intro target
    rw [Bool.eq_iff_iff, isImported_iff, isImported_iff]
    have importer (project : Project) (other : Text) :
        (∃ file, project.files.get? other = some file ∧ file.imports.contains target = true) ↔
          ∃ table, (project.files.get? other).map ProjectFile.imports = some table ∧
            table.contains target = true := by
      cases project.files.get? other <;> simp
    exact exists_congr fun other => by rw [importer, importer, imports]

end Retouching

/-- The unused imports of a file of an acyclic project without empty paths: none for an import bag,
and else, in path order, the direct imports that are not credited. They stay the same when the file
is retouched. -/
theorem unused_imports_exact (project : Project) (acyclic : project.Acyclic)
    (named : project.Named) (known : KnownCommands) (path : Text) (file : ProjectFile)
    (held : project.files.get? path = some file) :
    ∃ progress scope found, project.scopes = .ok progress ∧
      progress.scopes.get? path = some scope ∧
      (Analysis.ofScopes project progress.scopes known).file? path = some found ∧
      (file.isImportBag = true → found.unusedImports = []) ∧
      (file.isImportBag = false → ∀ unused, unused ∈ found.unusedImports ↔
        file.imports.get? unused.path = some unused.line ∧ unused.path ∈ scope.direct ∧
          ¬ project.Credited progress.scopes known file scope unused.path) ∧
      (found.unusedImports.map UnusedImport.path).Pairwise (· < ·) ∧
      ∀ twin : ProjectFile, twin.Retouches file → ∃ after again,
        (project.put twin).scopes = .ok after ∧
        (Analysis.ofScopes (project.put twin) after.scopes known).file? path = some again ∧
        again.unusedImports = found.unusedImports := by
  obtain ⟨progress, scope, done, own, shows, found⟩ := exists_shown acyclic known held
  refine ⟨progress, scope, _, done, own, found, ?_, ?_, increasing_unusedImports _, ?_⟩
  · intro bag
    simp [FileView.findings, FileView.unusedImports, bag]
  · exact fun plain unused => shows.mem_unusedImports named plain unused
  · intro twin retouches
    have same := sameShape_put held retouches
    have heldNow : (project.put twin).files.get? path = some twin := by
      rw [get_put held retouches, if_pos rfl]
    obtain ⟨after, rescope, doneNow, -, showsNow, foundNow⟩ :=
      exists_shown (same.acyclic acyclic) known heldNow
    exact ⟨after, _, doneNow, foundNow, same.unusedImports_eq shows showsNow rfl named retouches⟩

/-- A file that uses a command which two imports lead to, gets strict mode from a third and has a
fourth that is idle. -/
def pantryMain : ProjectFile :=
  { sketch "main" ["far", "idle", "near", "strict"] ["Run"] with
    usages := [⟨⟨"HELP", .function⟩, .zero⟩, ⟨⟨"run", .function⟩, .zero⟩] }

def pantry : Project :=
  [pantryMain, sketch "far" ["middle"] ["walk"], sketch "middle" ["base"] ["rest"],
    sketch "near" ["base"] ["hop"], sketch "base" [] ["help"], sketch "idle" [] ["nap"],
    { sketch "strict" [] [] with definitions := [⟨strictMode, .zero⟩] }].foldl
    Project.put (Project.empty [])

/-- The same file with its usages repeated in another order and a comment in its text. -/
def pantryTwin : ProjectFile :=
  { pantryMain with
    source := "# allow HELP"
    usages := pantryMain.usages.reverse ++ pantryMain.usages }

theorem pantryTwin_retouches : pantryTwin.Retouches pantryMain :=
  ⟨rfl, rfl, rfl, fun usage => by simp [pantryTwin]⟩

theorem pantry_acyclic : pantry.Acyclic :=
  acyclic_of_rank (fun path => if path = Text.ofString "main" then 3
    else if path = Text.ofString "far" then 2
    else if path ∈ ["middle", "near"].map Text.ofString then 1 else 0) (by decide +kernel)

theorem pantry_named : pantry.Named := named_of_paths (by decide +kernel)

def unusedPaths (project : Project) : Option (List Text) :=
  match project.scopes with
  | .ok progress =>
      ((Analysis.ofScopes project progress.scopes ⟨.empty, .empty⟩).file? "main").map fun found =>
        found.unusedImports.map UnusedImport.path
  | .error _ => none

theorem pantry_unused_imports_exact :
    unusedPaths pantry = some (["far", "idle"] : List Text) ∧
      ∃ progress scope found, pantry.scopes = .ok progress ∧
        (Analysis.ofScopes pantry progress.scopes ⟨.empty, .empty⟩).file? "main" = some found ∧
        (∀ unused, unused ∈ found.unusedImports ↔
          pantryMain.imports.get? unused.path = some unused.line ∧ unused.path ∈ scope.direct ∧
            ¬ pantry.Credited progress.scopes ⟨.empty, .empty⟩ pantryMain scope unused.path) ∧
        ∃ after again, (pantry.put pantryTwin).scopes = .ok after ∧
          (Analysis.ofScopes (pantry.put pantryTwin) after.scopes ⟨.empty, .empty⟩).file? "main" =
            some again ∧
          again.unusedImports = found.unusedImports := by
  obtain ⟨progress, scope, found, done, -, judged, -, listed, -, retouched⟩ :=
    unused_imports_exact pantry pantry_acyclic pantry_named ⟨.empty, .empty⟩ "main" pantryMain rfl
  exact ⟨by decide +kernel, progress, scope, found, done, judged, listed rfl,
    retouched pantryTwin pantryTwin_retouches⟩

end Project

end ScopeLint
