import ScopeLint.Editor.Server
import ScopeLint.Proofs.Project.Credits
import ScopeLint.Proofs.Project.Overlay
import ScopeLint.Proofs.Script.UsagePlaces

/-!
Going to a definition. A position is never in two usages, so what an editor is sent to depends on the
scope of the file alone and not on the order in which usages are listed.
-/

namespace ScopeLint

namespace Workspace

variable {workspace : Workspace} {options : AnalysisOptions} {root : Text} {analysis : Analysis}

theorem exists_loaded (analysed : (workspace.analyze options root).2 = .ok analysis) :
    ∃ loading, workspace.loadAll options root = .ok loading ∧ loading.project = analysis.project := by
  unfold analyze at analysed
  split at analysed
  next => cases analysed
  next project log loaded =>
    split at analysed
    next => cases analysed
    next =>
      obtain rfl := Except.ok.inj analysed
      exact ⟨_, loaded, rfl⟩

/-- A file keeps the text that its usages were read from. -/
theorem read_of_analyze (analysed : (workspace.analyze options root).2 = .ok analysis) {path : Text}
    {file : ProjectFile} (held : analysis.project.files.get? path = some file) :
    ∃ text script, Script.read text = .ok script ∧ file.source = text.dropMark ∧
      file.usages = script.usages := by
  obtain ⟨loading, loaded, same⟩ := exists_loaded analysed
  obtain ⟨start, -, loaded⟩ := Except.exists_of_bind loaded
  split at loaded
  next => cases loaded
  next excludes parsed =>
    obtain ⟨contributions, outcomes, run⟩ :=
      exists_contributions (scripts workspace.tree start excludes) ⟨Project.empty start, []⟩ rfl
    rw [← same, ← Except.ok.inj (loaded : Except.ok _ = Except.ok loading), run, files_accepts] at held
    obtain ⟨-, script, -, contribution, -, ⟨ending, outcome, -⟩, given, -⟩ := exists_last outcomes held
    cases outcome with
    | unreadable | malformed | stopped => cases given
    | added _ accepted _ _ _ _ source _ usages =>
        obtain rfl := Option.some.inj given
        exact ⟨_, _, accepted, source, usages⟩

/-- Every file that is analysed has a scope, and what the scope gives is a definition of a file. -/
theorem exists_scope (analysed : (workspace.analyze options root).2 = .ok analysis) {path : Text}
    {file : ProjectFile} (held : analysis.project.files.get? path = some file) :
    ∃ scope, analysis.scopes.get? path = some scope ∧
      ∀ item origin, scope.lookup item = some origin →
        ∃ target, analysis.project.files.get? origin.file = some target ∧
          origin.definition ∈ target.definitions := by
  obtain ⟨progress, computed, acyclic, -, same⟩ := exists_of_analyze analysed
  obtain ⟨shown, scope, done, own, shows, -⟩ := Project.exists_shown acyclic options.known held
  obtain rfl : progress = shown := Except.ok.inj (computed.symm.trans done)
  refine ⟨scope, by rw [same]; exact own, ?_⟩
  intro item origin found
  obtain ⟨target, stands, listed, -⟩ := origin_of_lookup shows.scope found
  exact ⟨target, stands, listed⟩

end Workspace

namespace Server

variable {workspace editor : Workspace} {options : AnalysisOptions} {directory uri : Text}
  {server : Server} {analysis : Analysis} {file : ProjectFile} {scope : Scope} {position : Position}

/-- What is answered to a position in a file: at most one usage is there; if the scope of the file
gives a definition for it, the answer is the place of that definition, and otherwise it is nothing. -/
structure Jumps (analysis : Analysis) (file : ProjectFile) (scope : Scope) (position : Position)
    (answer : Answer) : Prop where
  alone : (file.usages.filter (Usage.isUnder file.source position)).length ≤ 1
  resolved : ∀ usage ∈ file.usages, usage.isUnder file.source position = true →
    ∀ origin, scope.lookup usage.item = some origin →
      ∃ target, analysis.project.files.get? origin.file = some target ∧
        origin.definition ∈ target.definitions ∧
        answer = .location (Uri.ofPath origin.file) (.ofSpan target.source origin.definition.span)
  unresolved : ∀ usage ∈ file.usages, usage.isUnder file.source position = true →
    scope.lookup usage.item = none → answer = .nothing
  nowhere : (∀ usage ∈ file.usages, usage.isUnder file.source position = false) → answer = .nothing

def answerOf : Option (Text × Range) → Answer
  | some (target, range) => .location target range
  | none => .nothing

theorem handle_definition (workspace : Workspace) (server : Server) (uri : Text) (position : Position) :
    server.handle workspace (.definition uri position) =
      (server, [], answerOf (server.definitionAt? workspace uri position)) := by
  rw [handle]
  cases definitionAt? workspace server uri position <;> rfl

theorem definitionAt_of_absent (stored : server.analysis = some analysis)
    (absent : analysis.project.files.get? (workspace.canonical (Uri.toPath uri)) = none) :
    definitionAt? workspace server uri position = none := by
  simp [definitionAt?, stored, absent]

theorem definitionAt_eq (stored : server.analysis = some analysis)
    (held : analysis.project.files.get? (workspace.canonical (Uri.toPath uri)) = some file)
    (known : analysis.scopes.get? (workspace.canonical (Uri.toPath uri)) = some scope) :
    definitionAt? workspace server uri position =
      (file.usages.find? (Usage.isUnder file.source position)).bind fun usage =>
        (scope.lookup usage.item).bind fun origin =>
          (analysis.project.files.get? origin.file).bind fun target =>
            some (Uri.ofPath origin.file, .ofSpan target.source origin.definition.span) := by
  simp only [definitionAt?, Option.bind_eq_bind, stored, held, known, Option.bind_some]
  rfl

theorem jumps (analysed : (workspace.analyze options directory).2 = .ok analysis)
    (stored : server.analysis = some analysis)
    (held : analysis.project.files.get? (editor.canonical (Uri.toPath uri)) = some file)
    (countable : file.source.Countable) (position : Position) :
    ∃ scope, analysis.scopes.get? (editor.canonical (Uri.toPath uri)) = some scope ∧
      Jumps analysis file scope position
        (answerOf (server.definitionAt? editor uri position)) := by
  obtain ⟨scope, known, gives⟩ := Workspace.exists_scope analysed held
  obtain ⟨text, script, accepted, source, usages⟩ := Workspace.read_of_analyze analysed held
  have alone : (file.usages.filter (Usage.isUnder file.source position)).length ≤ 1 := by
    rw [source] at countable ⊢
    rw [usages]
    exact Script.usages_under accepted countable position
  refine ⟨scope, known, alone, ?_, ?_, ?_⟩
  · intro usage listed under origin found
    obtain ⟨target, stands, defines⟩ := gives _ _ found
    refine ⟨target, stands, defines, ?_⟩
    rw [definitionAt_eq stored held known, List.find?_of_alone alone listed under]
    simp only [Option.bind_some, found, stands]
    rfl
  · intro usage listed under unknown
    rw [definitionAt_eq stored held known, List.find?_of_alone alone listed under]
    simp only [Option.bind_some, unknown, Option.bind_none]
    rfl
  · intro nowhere
    have absent : file.usages.find? (Usage.isUnder file.source position) = none :=
      List.find?_eq_none.mpr fun usage listed => by simp [nowhere usage listed]
    rw [definitionAt_eq stored held known, absent]
    rfl

/-- Going to a definition is unambiguous. In a text that can be read, at most one usage is at a
position; positions grow strictly with the bytes of the places that reading comes through; and so the
answer to a position in an analysed file is the place of the definition that the scope of the file
gives for the one usage there, and nothing if there is no usage or no definition. Lines and columns
are to fit into 32 bits. -/
theorem definition_unambiguous :
    (∀ text script, Script.read text = .ok script → text.dropMark.Countable →
      ∀ position, (script.usages.filter (Usage.isUnder text.dropMark position)).length ≤ 1) ∧
    (∀ source : Text, source.Countable →
      ∀ cursor other : Cursor, cursor.Reached source → other.Reached source →
        cursor.location.byte < other.location.byte →
        (Position.ofLocation source cursor.location).Before
          (Position.ofLocation source other.location)) ∧
    ∀ (workspace editor : Workspace) options directory analysis (server : Server) uri position,
      (workspace.analyze options directory).2 = .ok analysis → server.analysis = some analysis →
      ∃ answer, server.handle editor (.definition uri position) = (server, [], answer) ∧
        (analysis.project.files.get? (editor.canonical (Uri.toPath uri)) = none → answer = .nothing) ∧
        ∀ file, analysis.project.files.get? (editor.canonical (Uri.toPath uri)) = some file →
          file.source.Countable →
          ∃ scope, analysis.scopes.get? (editor.canonical (Uri.toPath uri)) = some scope ∧
            Jumps analysis file scope position answer := by
  refine ⟨?_, ?_, ?_⟩
  · intro text script accepted countable position
    exact Script.usages_under accepted countable position
  · intro source countable cursor other reached reachedOther below
    exact before_of_byte_lt countable reached.met reachedOther.met below
  · intro workspace editor options directory analysis server uri position analysed stored
    refine ⟨_, handle_definition editor server uri position, ?_, ?_⟩
    · intro absent
      rw [definitionAt_of_absent stored absent]
      rfl
    · intro file held countable
      exact jumps analysed stored held countable position

/-- Two usages a byte apart. -/
def stageText : Text := ". $PSScriptRoot/b.ps1\nfoo[Bar]"

def stageUsage : Usage := ⟨⟨"foo", .function⟩, ⟨⟨22, 2, 1⟩, ⟨25, 2, 4⟩⟩⟩

def stage : Workspace where
  tree := [("/w/a.ps1", stageText), ("/w/b.ps1", "function Foo \x7b\x7d\nclass Bar \x7b\x7d")].foldl
    (fun tree (path, text) => tree.put (Text.ofString path) (.file text)) .empty
  working := "/"

def stageServer (analysis : Analysis) : Server := { root := none, analysis := some analysis }

theorem stage_analyzed :
    ∃ analysis, (stage.analyze Workspace.shopOptions "/w").2 = .ok analysis ∧
      ∃ file, analysis.project.files.get? "/w/a.ps1" = some file ∧ file.source = stageText ∧
        stageUsage ∈ file.usages ∧
        ∃ scope, analysis.scopes.get? "/w/a.ps1" = some scope ∧
          ∃ origin, scope.lookup stageUsage.item = some origin ∧
            origin.file = Text.ofString "/w/b.ps1" ∧
            ∃ target, analysis.project.files.get? origin.file = some target ∧
              Range.ofSpan target.source origin.definition.span = ⟨⟨0, 9⟩, ⟨0, 12⟩⟩ := by
  have outcome : (stage.analyze Workspace.shopOptions "/w").2.toOption.bind (fun analysis =>
      (analysis.project.files.get? "/w/a.ps1").bind fun file =>
        (analysis.scopes.get? "/w/a.ps1").bind fun scope =>
          (scope.lookup stageUsage.item).bind fun origin =>
            (analysis.project.files.get? origin.file).map fun target =>
              (file.source, file.usages.head?, origin.file,
                Range.ofSpan target.source origin.definition.span)) =
      some (stageText, some stageUsage, Text.ofString "/w/b.ps1", ⟨⟨0, 9⟩, ⟨0, 12⟩⟩) := by
    decide +kernel
  obtain ⟨analysis, analysed, outcome⟩ := Except.exists_of_toOption_bind outcome
  obtain ⟨file, held, outcome⟩ := Option.bind_eq_some_iff.mp outcome
  obtain ⟨scope, known, outcome⟩ := Option.bind_eq_some_iff.mp outcome
  obtain ⟨origin, found, outcome⟩ := Option.bind_eq_some_iff.mp outcome
  obtain ⟨target, stands, same⟩ := Option.map_eq_some_iff.mp outcome
  simp only [Prod.mk.injEq] at same
  obtain ⟨source, first, leads, range⟩ := same
  exact ⟨analysis, analysed, file, held, source, List.mem_of_mem_head? first, scope, known,
    origin, found, leads, target, stands, range⟩

/-- The position is behind the last character of the first usage, in front of the bracket. -/
theorem stage_jumps :
    (∃ script, Script.read stageText = .ok script ∧
      (script.usages.filter (Usage.isUnder stageText ⟨1, 3⟩)).length ≤ 1) ∧
    (∃ cursor : Cursor, cursor.Reached stageText ∧
      (Position.ofLocation stageText .start).Before (Position.ofLocation stageText cursor.location)) ∧
    ∃ analysis, (stage.analyze Workspace.shopOptions "/w").2 = .ok analysis ∧
      ∃ answer, (stageServer analysis).handle stage (.definition "file:///w/a.ps1" ⟨1, 3⟩) =
          (stageServer analysis, [], answer) ∧
        answer = .location "file:///w/b.ps1" ⟨⟨0, 9⟩, ⟨0, 12⟩⟩ := by
  obtain ⟨once, grows, answers⟩ := definition_unambiguous
  have countable : stageText.Countable := Text.countable_of_length (by decide +kernel)
  refine ⟨?_, ?_, ?_⟩
  · have reads : (Script.read stageText).toOption.bind (fun script => script.usages.head?) =
        some stageUsage := by
      decide +kernel
    obtain ⟨script, accepted, -⟩ := Except.exists_of_toOption_bind reads
    exact ⟨script, accepted, once stageText script accepted countable ⟨1, 3⟩⟩
  · have first : ((Cursor.ofText stageText).next?.map fun next => next.2.location.byte) = some 1 := by
      decide +kernel
    obtain ⟨⟨glyph, behind⟩, next, byte⟩ := Option.map_eq_some_iff.mp first
    refine ⟨behind, .next .start next, grows stageText countable _ _ .start (.next .start next) ?_⟩
    rw [byte]
    decide +kernel
  · obtain ⟨analysis, analysed, file, held, source, listed, scope, known, origin, found, leads, target,
      stands, range⟩ := stage_analyzed
    have path : stage.canonical (Uri.toPath "file:///w/a.ps1") = Text.ofString "/w/a.ps1" := by
      decide +kernel
    have under : stageUsage.isUnder file.source ⟨1, 3⟩ = true := by
      rw [source]
      decide +kernel
    obtain ⟨answer, handled, -, gives⟩ := answers stage stage Workspace.shopOptions "/w" analysis
      (stageServer analysis) "file:///w/a.ps1" ⟨1, 3⟩ analysed rfl
    rw [path] at gives
    obtain ⟨own, shown, jump⟩ := gives file held (source ▸ countable)
    obtain rfl := Option.some.inj (known.symm.trans shown)
    obtain ⟨holder, stored, -, same⟩ := jump.resolved _ listed under origin found
    obtain rfl := Option.some.inj (stands.symm.trans stored)
    refine ⟨analysis, analysed, answer, handled, ?_⟩
    rw [same, leads, range]
    decide +kernel

end Server

end ScopeLint
