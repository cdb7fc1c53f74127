import ScopeLint.Editor.Server
import ScopeLint.Proofs.Table

/-!
What an editor shows while it talks to the server: for every file the list of findings that was
sent last. Messages come in any order and the disk may differ from one to the next. Only an
analysis that succeeds changes what is shown, and what is shown then is its findings and nothing
of an earlier one.
-/

namespace ScopeLint

abbrev Shown := Text → List EditorFinding

def Shown.take (shown : Shown) : Notification → Shown
  | .findings uri list => fun other => if other = uri then list else shown other
  | .failure _ => shown

structure Session where
  server : Server
  shown : Shown

namespace Session

/-- Before the first message nothing is shown. -/
def start (root : Option Text) : Session := ⟨{ root }, fun _ => []⟩

/-- A message that arrives while the disk is as given. -/
def step (session : Session) (event : Workspace × Message) : Session :=
  let (server, sent, _) := session.server.handle event.1 event.2
  ⟨server, sent.foldl Shown.take session.shown⟩

def after (root : Option Text) (history : List (Workspace × Message)) : Session :=
  history.foldl step (start root)

/-- The server knows which files have findings on show. -/
def InStep (session : Session) : Prop :=
  ∀ uri, session.shown uri ≠ [] ↔ uri ∈ session.server.published

structure Unchanged (before now : Session) : Prop where
  shown : now.shown = before.shown
  published : now.server.published = before.server.published
  analysis : now.server.analysis = before.server.analysis

end Session

namespace Server

variable {workspace : Workspace} {server : Server} {diagnostics : List Diagnostic}

def runs (server : Server) : Message → Bool
  | .opened .. | .saved | .closed _ | .analyze => true
  | .delayOver => server.delay = .running
  | _ => false

def findingsFor (workspace : Workspace) (server : Server) (diagnostics : List Diagnostic)
    (uri : Text) : List EditorFinding :=
  (diagnostics.filter fun diagnostic => Uri.ofPath diagnostic.path = uri).map fun diagnostic =>
    EditorFinding.ofDiagnostic (sourceOf workspace server diagnostic.path) diagnostic

theorem get_group (workspace : Workspace) (server : Server) (diagnostics : List Diagnostic)
    (uri : Text) :
    (group workspace server diagnostics).get? uri =
      if findingsFor workspace server diagnostics uri = [] then none
      else some (findingsFor workspace server diagnostics uri) := by
  -- From any table on, the findings of a URI come behind those that it has already.
  suffices grows : ∀ table : Table (List EditorFinding),
      (diagnostics.foldl (fun table diagnostic =>
        let uri := Uri.ofPath diagnostic.path
        let finding :=
          EditorFinding.ofDiagnostic (sourceOf workspace server diagnostic.path) diagnostic
        table.insert uri ((table.get? uri).getD [] ++ [finding])) table).get? uri =
      if findingsFor workspace server diagnostics uri = [] then table.get? uri
      else some ((table.get? uri).getD [] ++ findingsFor workspace server diagnostics uri) by
    exact grows ∅
  induction diagnostics with
  | nil =>
      intro table
      simp [findingsFor]
  | cons diagnostic rest induction =>
      intro table
      rw [List.foldl_cons, induction]
      by_cases same : Uri.ofPath diagnostic.path = uri
      · subst same
        by_cases last : findingsFor workspace server rest (Uri.ofPath diagnostic.path) = []
        · simp_all [findingsFor]
        · simp_all [findingsFor]
      · have other : uri ≠ Uri.ofPath diagnostic.path := Ne.symm same
        simp [findingsFor, same, Table.get_insert_of_ne _ _ other]

theorem get_withCleared (published : List Text) (found : Table (List EditorFinding)) (uri : Text) :
    (withCleared published found).get? uri =
      (found.get? uri).or (if uri ∈ published then some [] else none) := by
  induction published generalizing found with
  | nil => simp [withCleared]
  | cons first rest induction =>
      have unfolded : withCleared (first :: rest) found =
          withCleared rest (if found.contains first then found else found.insert first []) := rfl
      rw [unfolded, induction]
      by_cases same : uri = first
      · subst same
        cases held : found.get? uri with
        | none => simp [Table.contains, held]
        | some list => simp [Table.contains, held]
      · split
        next => simp [same]
        next => simp [same, Table.get_insert_of_ne _ _ same]

end Server

namespace Shown

/-- A list of findings under every key of a table, sent one after the other: each URI of the table
shows its list, and the others what they showed. -/
theorem foldl_take (table : Table (List EditorFinding)) (shown : Shown) (uri : Text) :
    (table.entries.map fun (uri, list) => Notification.findings uri list).foldl take shown uri =
      (table.get? uri).getD (shown uri) := by
  rw [Table.get?]
  obtain ⟨entries, increasing⟩ := table
  induction entries generalizing shown with
  | nil => rfl
  | cons entry rest induction =>
      obtain ⟨first, later⟩ := List.pairwise_cons.mp increasing
      rw [List.map_cons, List.foldl_cons, induction _ later]
      by_cases same : entry.1 = uri
      · subst same
        have absent : (rest.find? fun other => other.1 = entry.1) = none := by
          simp only [List.find?_eq_none, decide_eq_true_eq]
          intro other member equal
          have below := first other member
          rw [equal] at below
          exact List.lt_irrefl _ below
        simp [absent, take]
      · simp [same, take, Ne.symm same]

end Shown

namespace Server

variable {workspace : Workspace} {server : Server} {shown : Shown}

theorem findingsFor_publish (diagnostics others : List Diagnostic) (uri : Text) :
    findingsFor workspace (publish workspace server others).1 diagnostics uri =
      findingsFor workspace server diagnostics uri := rfl

/-- After publishing, exactly the findings of the given diagnostics are on show. -/
theorem shown_publish (diagnostics : List Diagnostic) (inStep : (Session.mk server shown).InStep)
    (uri : Text) :
    (publish workspace server diagnostics).2.foldl Shown.take shown uri =
      findingsFor workspace server diagnostics uri := by
  rw [publish, Shown.foldl_take, get_withCleared, get_group]
  by_cases empty : findingsFor workspace server diagnostics uri = []
  · by_cases before : uri ∈ server.published
    · simp [empty, before]
    · have hidden : shown uri = [] :=
        Decidable.byContradiction fun visible => before ((inStep uri).mp visible)
      simp [empty, before, hidden]
  · simp [empty]

theorem mem_published_publish (diagnostics : List Diagnostic) (uri : Text) :
    uri ∈ (publish workspace server diagnostics).1.published ↔
      findingsFor workspace server diagnostics uri ≠ [] := by
  have listed : uri ∈ (publish workspace server diagnostics).1.published ↔ ∃ list,
      (withCleared server.published (group workspace server diagnostics)).get? uri = some list ∧
        list ≠ [] := by
    simp only [publish, List.mem_map, List.mem_filter, Prod.exists, Table.get_eq_some_iff]
    simp
  rw [listed, get_withCleared, get_group]
  by_cases empty : findingsFor workspace server diagnostics uri = []
  · by_cases before : uri ∈ server.published <;> simp [empty, before]
  · simp [empty]

end Server

namespace Session

/-- A session whose server has just analysed. Without a root or after a failure all is as it was;
after a success exactly the findings of the new analysis are on show. -/
def RunLeaves (workspace : Workspace) (before now : Session) : Prop :=
  match now.server.root with
  | none => Unchanged before now
  | some root =>
      match Server.check workspace now.server.documents root with
      | .error _ => Unchanged before now
      | .ok (analysis, diagnostics) => now.server.analysis = some analysis ∧
          ∀ uri, now.shown uri = Server.findingsFor workspace now.server diagnostics uri

variable {session : Session}

def ran (workspace : Workspace) (session : Session) : Session :=
  ⟨(session.server.run workspace).1,
    (session.server.run workspace).2.foldl Shown.take session.shown⟩

theorem ran_without_root (workspace : Workspace) (rootless : session.server.root = none) :
    session.ran workspace = session := by
  simp only [ran, Server.run, rootless]
  rfl

theorem ran_of_failure {workspace : Workspace} {root : Text} {error : CheckError}
    (hasRoot : session.server.root = some root)
    (failed : Server.check workspace session.server.documents root = .error error) :
    session.ran workspace = session := by
  simp only [ran, Server.run, hasRoot, failed]
  rfl

theorem run_of_success {workspace : Workspace} {root : Text} {analysis : Analysis}
    {diagnostics : List Diagnostic} (hasRoot : session.server.root = some root)
    (passed : Server.check workspace session.server.documents root = .ok (analysis, diagnostics)) :
    session.server.run workspace =
      Server.publish workspace { session.server with analysis := some analysis } diagnostics := by
  simp only [Server.run, hasRoot, passed]

/-- A run keeps the two sides in step. The stored analysis changes before anything is sent, and
nothing that the invariant speaks of depends on it. -/
theorem ran_leaves (workspace : Workspace) (inStep : session.InStep) :
    (session.ran workspace).InStep ∧ RunLeaves workspace session (session.ran workspace) := by
  cases hasRoot : session.server.root with
  | none =>
      rw [ran_without_root workspace hasRoot]
      refine ⟨inStep, ?_⟩
      simp only [RunLeaves, hasRoot]
      exact ⟨rfl, rfl, rfl⟩
  | some root =>
      cases outcome : Server.check workspace session.server.documents root with
      | error error =>
          rw [ran_of_failure hasRoot outcome]
          refine ⟨inStep, ?_⟩
          simp only [RunLeaves, hasRoot, outcome]
          exact ⟨rfl, rfl, rfl⟩
      | ok found =>
          obtain ⟨analysis, diagnostics⟩ := found
          let stored : Server := { session.server with analysis := some analysis }
          have run : session.server.run workspace = Server.publish workspace stored diagnostics :=
            run_of_success hasRoot outcome
          have still : (Session.mk stored session.shown).InStep := inStep
          have shows (uri : Text) : (session.ran workspace).shown uri =
              Server.findingsFor workspace stored diagnostics uri := by
            rw [ran, run]
            exact Server.shown_publish diagnostics still uri
          have now : (session.ran workspace).server =
              (Server.publish workspace stored diagnostics).1 := by
            rw [ran, run]
          constructor
          · intro uri
            rw [shows, now, Server.mem_published_publish]
          · have sameRoot : (session.ran workspace).server.root = some root := now ▸ hasRoot
            have sameDocuments : (session.ran workspace).server.documents =
                session.server.documents := by
              rw [now]
              rfl
            simp only [RunLeaves, sameRoot, sameDocuments, outcome]
            refine ⟨by rw [now]; rfl, fun uri => ?_⟩
            rw [shows, now, Server.findingsFor_publish]

/-- A message that makes the server analyse may first open or close a document or end the delay,
and does nothing else besides the run. -/
theorem step_of_runs (workspace : Workspace) {message : Message}
    (running : session.server.runs message = true) :
    ∃ started : Session, Unchanged session started ∧
      session.step (workspace, message) = started.ran workspace := by
  have keeps (documents : DocumentStore) (delay : Delay) :
      Unchanged session ⟨{ session.server with documents, delay }, session.shown⟩ := ⟨rfl, rfl, rfl⟩
  cases message with
  | opened uri version content => exact ⟨_, keeps _ session.server.delay, rfl⟩
  | saved => exact ⟨_, keeps session.server.documents session.server.delay, rfl⟩
  | closed uri => exact ⟨_, keeps _ session.server.delay, rfl⟩
  | analyze => exact ⟨_, keeps session.server.documents session.server.delay, rfl⟩
  | delayOver =>
      have waiting : session.server.delay = .running := of_decide_eq_true running
      refine ⟨_, keeps session.server.documents .over, ?_⟩
      simp only [step, Server.handle, if_pos waiting]
      rfl
  | _ => cases running

theorem step_unchanged (workspace : Workspace) {message : Message}
    (resting : session.server.runs message = false) :
    Unchanged session (session.step (workspace, message)) := by
  cases message with
  | opened | saved | closed | analyze => cases resting
  | symbols uri =>
      simp only [step, Server.handle]
      split <;> exact ⟨rfl, rfl, rfl⟩
  | definition uri position =>
      simp only [step, Server.handle]
      split <;> exact ⟨rfl, rfl, rfl⟩
  | delayOver =>
      have idle : ¬ session.server.delay = .running := of_decide_eq_false resting
      simp only [step, Server.handle, if_neg idle]
      exact ⟨rfl, rfl, rfl⟩
  | _ => exact ⟨rfl, rfl, rfl⟩

theorem Unchanged.inStep {before now : Session} (unchanged : Unchanged before now)
    (inStep : before.InStep) : now.InStep := by
  intro uri
  rw [unchanged.shown, unchanged.published]
  exact inStep uri

theorem RunLeaves.of_unchanged {workspace : Workspace} {before started now : Session}
    (unchanged : Unchanged before started) (leaves : RunLeaves workspace started now) :
    RunLeaves workspace before now := by
  have trans (later : Unchanged started now) : Unchanged before now :=
    ⟨later.shown.trans unchanged.shown, later.published.trans unchanged.published,
      later.analysis.trans unchanged.analysis⟩
  unfold RunLeaves at leaves ⊢
  split at leaves
  next => exact trans leaves
  next =>
    split at leaves
    next failed => simpa only [failed] using trans leaves
    next passed => simpa only [passed] using leaves

theorem inStep_step (event : Workspace × Message) (inStep : session.InStep) :
    (session.step event).InStep := by
  obtain ⟨workspace, message⟩ := event
  cases running : session.server.runs message with
  | false => exact (step_unchanged workspace running).inStep inStep
  | true =>
      obtain ⟨started, unchanged, same⟩ := step_of_runs workspace running
      rw [same]
      exact (ran_leaves workspace (unchanged.inStep inStep)).1

theorem inStep_after (root : Option Text) (history : List (Workspace × Message)) :
    (after root history).InStep := by
  suffices ∀ session : Session, session.InStep → (history.foldl step session).InStep from
    this (start root) (by simp [InStep, start])
  induction history with
  | nil => exact fun session inStep => inStep
  | cons event rest induction =>
      exact fun session inStep => induction (session.step event) (inStep_step event inStep)

/-- No finding outlives the analysis that made it. Whatever was opened, changed, saved and closed
and however the disk changed, the files with findings on show are the published ones, and a message
that makes the server analyse leaves on show either exactly the findings of this analysis or, when
it fails, all as it was. No other message changes anything of this. -/
theorem shown_findings_current (root : Option Text) (history : List (Workspace × Message))
    (workspace : Workspace) (message : Message) :
    let before := after root history
    let now := before.step (workspace, message)
    (∀ uri, now.shown uri ≠ [] ↔ uri ∈ now.server.published) ∧
      if before.server.runs message then RunLeaves workspace before now
      else Unchanged before now := by
  intro before now
  have inStep : before.InStep := inStep_after root history
  refine ⟨inStep_step (workspace, message) inStep, ?_⟩
  split
  next running =>
    obtain ⟨started, unchanged, same⟩ := step_of_runs workspace running
    have leaves := (ran_leaves workspace (unchanged.inStep inStep)).2
    rw [← same] at leaves
    exact leaves.of_unchanged unchanged
  next resting => exact step_unchanged workspace (Bool.eq_false_iff.mpr resting)

end Session

end ScopeLint
