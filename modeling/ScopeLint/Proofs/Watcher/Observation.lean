import Mathlib.Data.List.Induction
import ScopeLint.Proofs.Project.Scripts
import ScopeLint.Watcher

/-!
The watcher against the analysis. Both go through the directories below a root, and what the analysis
reads stands in a directory that the watcher observes, provided that the root is no link: the analysis
starts where the root leads to, the watcher at the root itself.
-/

namespace ScopeLint

open ScopeLint.FileTree ScopeLint.Path

namespace Workspace

variable {tree : FileTree} {root inner : Text} {excludes : Excludes}

theorem Found.exists_names (formed : tree.WellFormed)
    (place : tree.entry? (placeOf root) = some .directory)
    (found : Found tree root excludes inner) :
    ∃ names, inner = Text.join "/" names ∧ names ≠ [] ∧ AreNames names ∧
      ∀ front name behind, names = front ++ name :: behind → front ≠ [] →
        tree.entry? (placeOf root ++ slash :: Text.join "/" front) = some .directory := by
  obtain ⟨entry, stands⟩ := found.stands
  obtain ⟨above, start, reaches⟩ := formed.exists_names place
  obtain ⟨all, path, passes⟩ := formed.exists_names stands
  have split : all = above ++ Text.splitOn slash inner := by
    have whole := congrArg (Text.splitOn slash) path
    rw [start, Text.splitOn_eq, List.splitOn_append_cons_self, ← Text.splitOn_eq, ← Text.splitOn_eq,
      splitOn_below reaches.named.whole, splitOn_below passes.named.whole] at whole
    exact (List.cons.inj whole).2.symm
  subst split
  refine ⟨Text.splitOn slash inner, (join_splitOn inner).symm, ?_, ?_, ?_⟩
  · rw [Text.splitOn_eq]
    exact List.splitOn_ne_nil _ _
  · exact (areNames_append.mp passes.named).2
  · intro front name behind cut nonempty
    rw [slash_join nonempty, start, ← below_append]
    apply passes.through (above ++ front) name behind
    rw [cut, List.append_assoc]

theorem Found.entered_front {names front behind : List Text}
    (found : Found tree root excludes (Text.join "/" names)) (named : AreNames names)
    (split : names = front ++ behind) (nonempty : front ≠ []) (more : behind ≠ []) :
    isSkippedDirectory (placeOf root) excludes (Text.join "/" front) = false := by
  apply found.entered
  have length := List.length_pos_iff.mpr nonempty
  have lengthMore := List.length_pos_iff.mpr more
  rw [ancestors, splitOn_join named.whole (by simp [split, nonempty])]
  refine List.mem_map.mpr ⟨front.length - 1, ?_, ?_⟩
  · rw [split, List.mem_range, List.length_append]
    omega
  · rw [Nat.sub_add_cancel length, split, List.take_left]

end Workspace

namespace Watcher

variable {watcher : Watcher} {names more front : List Text} {place : Text}

theorem lead_join (all : AreNames names) (nonempty : more ≠ []) :
    (if ofNames true names = Text.ofString "/" then ofNames true names
      else ofNames true names ++ Text.ofString "/") ++ Text.join "/" more =
      ofNames true (names ++ more) := by
  rcases eq_or_ne names [] with empty | named
  · rw [if_pos ((ofNames_eq_root all).mpr empty), empty]
    rfl
  · rw [if_neg (mt (ofNames_eq_root all).mp named), ofNames_eq named, ofNames_eq (by simp [named]),
      below_append, ← slash_join nonempty, slash_text, List.append_assoc]
    rfl

theorem mem_way_self (all : AreNames names) :
    ∀ directory ∈ way (ofNames true names) (ofNames true names), directory = ofNames true names := by
  rcases eq_or_ne names [] with rfl | named
  · decide
  · intro directory member
    have outside : (ofNames true names).after? (ofNames true names ++ Text.ofString "/") = none := by
      rw [Option.eq_none_iff_forall_ne_some]
      intro rest after
      have length := congrArg List.length (Text.after_eq_some.mp after)
      simp only [List.length_append, slash_text, List.length_singleton] at length
      omega
    rw [way, if_neg (mt (ofNames_eq_root all).mp named), outside] at member
    exact List.mem_singleton.mp member

theorem mem_way (all : AreNames names) (inner : AreNames more) :
    ∀ directory ∈ way (ofNames true names) (ofNames true (names ++ more)),
      directory = ofNames true names ∨
        ∃ front behind, more = front ++ behind ∧ front ≠ [] ∧
          directory = ofNames true (names ++ front) := by
  intro directory member
  rcases eq_or_ne more [] with rfl | nonempty
  · rw [List.append_nil] at member
    exact .inl (mem_way_self all directory member)
  · have after := Text.after_eq_some.mpr (lead_join all nonempty).symm
    rw [way, after] at member
    rcases List.mem_cons.mp member with rfl | further
    · exact .inl rfl
    · obtain ⟨passed, listed, rfl⟩ := List.mem_map.mp further
      rcases List.mem_append.mp listed with onWay | last
      · rw [ancestors, splitOn_join inner.whole nonempty] at onWay
        obtain ⟨count, -, rfl⟩ := List.mem_map.mp onWay
        refine .inr ⟨more.take (count + 1), more.drop (count + 1), (List.take_append_drop _ _).symm,
          by simpa using nonempty, ?_⟩
        exact join_ofNames all fun name member => inner name (List.mem_of_mem_take member)
      · rw [List.mem_singleton.mp last]
        exact .inr ⟨more, [], (List.append_nil more).symm, nonempty, join_ofNames all inner⟩

/-- The watcher leaves out no directory that the analysis enters. -/
theorem isLeftOut_ofNames (all : AreNames names) (inner : AreNames front)
    (nonempty : front ≠ []) (rooted : watcher.root = ofNames true names)
    (entered : Workspace.isSkippedDirectory place watcher.excludes (Text.join "/" front) = false) :
    watcher.isLeftOut (ofNames true (names ++ front)) = false := by
  obtain ⟨last, own, name, innerName, -⟩ := exists_base all inner nonempty
  rw [Workspace.isSkippedDirectory, Workspace.isSkipped, innerName] at entered
  simp only [Bool.or_eq_false_iff] at entered
  obtain ⟨⟨-, covered⟩, shown⟩ := entered
  have hidden : (decide (last.length > 1) && last.startsWith ".") = false := by
    simpa [Workspace.isHidden, own.notUp] using shown
  rw [isLeftOut, isExcludedDirectory, isExcluded, rooted, relative_ofNames all inner nonempty]
  simp only [name, hidden, Option.getD_some, covered, Bool.or_false, Bool.and_false]

theorem isRelevant_ofNames (all : AreNames names) (inner : AreNames more)
    (nonempty : more ≠ []) (rooted : watcher.root = ofNames true names)
    (kept : Workspace.isSkipped place watcher.excludes (Text.join "/" more) = false)
    (script : Workspace.isScript (Text.join "/" more) = true)
    (extension : Script.extension ∈ watcher.extensions) :
    watcher.isRelevant (ofNames true (names ++ more)) = true := by
  obtain ⟨last, -, name, -, ending⟩ := exists_base all inner nonempty
  rw [Workspace.isSkipped] at kept
  simp only [Bool.or_eq_false_iff] at kept
  rw [isRelevant, isExcluded, rooted, relative_ofNames all inner nonempty]
  simp only [name, ending, Option.getD_some, kept.2, Bool.not_false, Bool.true_and, Bool.or_eq_true]
  exact .inr (List.any_eq_true.mpr ⟨_, extension, script⟩)

theorem mem_observed {paths : List Text} {table : Table Unit} {path : Text} (member : path ∈ paths) :
    path ∈ (paths.foldl (fun table directory => table.insert directory ()) table).keys := by
  induction paths using List.reverseRecOn with
  | nil => cases member
  | append_singleton paths last induction =>
      rw [List.foldl_append, List.foldl_cons, List.foldl_nil, Table.mem_keys, Table.contains_iff]
      by_cases same : path = last
      · exact ⟨(), same ▸ Table.get_insert_self ..⟩
      · have earlier : path ∈ paths := by simpa [same] using member
        rw [Table.get_insert_of_ne _ _ same, ← Table.contains_iff, ← Table.mem_keys]
        exact induction earlier

section Script

variable {tree : FileTree} {root inner : Text}

/-- The directory of a script, as the watcher sees it, is among those that the watcher goes through
and leaves in. -/
theorem directory_kept (formed : tree.WellFormed) (all : AreNames names)
    (rooted : watcher.root = ofNames true names)
    (place : tree.entry? (Workspace.placeOf root) = some .directory)
    (found : Workspace.Found tree root watcher.excludes inner) :
    directory (join watcher.root inner) ∈
      (directoriesBelow tree watcher.root (Workspace.placeOf root)).filter fun directory =>
        !(way watcher.root directory).any watcher.isLeftOut := by
  obtain ⟨parts, rfl, nonempty, named, through⟩ := found.exists_names formed place
  obtain ⟨init, last, rfl⟩ := (List.eq_nil_or_concat parts).resolve_left nonempty
  rw [List.concat_eq_append] at *
  obtain ⟨others, own⟩ := areNames_concat.mp named
  have holder : directory (join watcher.root (Text.join "/" (init ++ [last]))) =
      ofNames true (names ++ init) := by
    rw [rooted, join_ofNames all named, ← List.append_assoc]
    exact directory_ofNames (areNames_append.mpr ⟨all, others⟩) own
  rw [holder, List.mem_filter]
  refine ⟨?_, ?_⟩
  · by_cases direct : init = []
    · rw [direct, List.append_nil, ← rooted]
      exact List.mem_cons_self
    · apply List.mem_cons_of_mem
      have listed := mem_listing.mpr (through init last [] rfl direct)
      refine List.mem_filterMap.mpr ⟨_, listed, ?_⟩
      simp only [rooted, if_true, join_ofNames all others]
  · rw [Bool.not_eq_true', List.any_eq_false]
    intro passed onWay
    rw [Bool.not_eq_true]
    rw [rooted] at onWay
    rcases mem_way all others passed onWay with rfl | ⟨front, behind, split, more, rfl⟩
    · simp [isLeftOut, rooted]
    · have inside : AreNames (front ++ behind) := split ▸ others
      apply isLeftOut_ofNames all (areNames_append.mp inside).1 more rooted
      apply found.entered_front named _ more
      · exact List.append_ne_nil_of_right_ne_nil behind (List.cons_ne_nil last [])
      · rw [split, List.append_assoc]

end Script

/-- The watcher sees what the analysis reads. For a path that names a directory, and unless the path
itself ends in a link, observing it succeeds, and every script that the analysis finds stands, at the
same place below the watched path, in an observed directory, and a change of it counts. A path that
ends in a link is taken for a file: nothing is observed. -/
theorem observes_scripts (workspace : Workspace) (watcher : Watcher) (path root : Text)
    (formed : workspace.tree.WellFormed) (rooted : isAbsolute workspace.working = true)
    (accepted : workspace.root path = .ok root)
    (named : watcher.root = absolute workspace.working path)
    (extension : Script.extension ∈ watcher.extensions) :
    (¬ workspace.tree.EndsInLink
        (workspace.tree.resolve workspace.working accessLinks false watcher.root) →
      ∃ observed, watcher.observe workspace watcher.root = .ok observed ∧
        ∀ script ∈ Workspace.scripts workspace.tree root watcher.excludes,
          ∃ inner, script = Workspace.placeOf root ++ slash :: inner ∧
            directory (join watcher.root inner) ∈ observed.observedPaths ∧
            watcher.isRelevant (join watcher.root inner) = true) ∧
    (workspace.tree.EndsInLink
        (workspace.tree.resolve workspace.working accessLinks false watcher.root) →
      watcher.observe workspace watcher.root = .ok watcher) := by
  obtain ⟨names, all, clean⟩ := exists_absolute rooted path
  obtain ⟨found, leads, stands, rfl⟩ := Workspace.root_eq_ok rooted accepted
  have place := Workspace.placeOf_shown formed (solid_of_directory stands)
  rw [← named] at clean leads
  refine ⟨?_, ?_⟩
  · intro plain
    have same := (resolve_last leads).resolve_right plain
    have kept : watcher.directories workspace watcher.root =
        .ok ((directoriesBelow workspace.tree watcher.root found).filter fun directory =>
          !(way watcher.root directory).any watcher.isLeftOut) := by
      rw [directories, same]
      exact if_pos stands
    refine ⟨_, by rw [observe, kept]; rfl, ?_⟩
    intro script member
    obtain ⟨inner, split, script⟩ := Workspace.found_of_mem_scripts member
    rw [← place] at stands
    refine ⟨inner, split, ?_, ?_⟩
    · have listed := directory_kept formed all clean stands script
      rw [place] at listed
      exact mem_observed listed
    · obtain ⟨parts, rfl, nonempty, inside, -⟩ := script.exists_names formed stands
      rw [clean, join_ofNames all inside]
      exact isRelevant_ofNames all inside nonempty clean script.kept script.isScript extension
  · rintro ⟨last, target, leads, link⟩
    have nothing : watcher.directories workspace watcher.root = .ok [] := by
      rw [directories, leads]
      exact if_neg (by simp [link])
    rw [observe, nothing]
    rfl

/-- A directory with scripts and a link to it. -/
def mirror : Workspace where
  tree := [("/w/real/a.ps1", .file []), ("/w/real/sub/b.ps1", .file []), ("/w/alias", .link "real")].foldl
    (fun tree (path, entry) => tree.put (Text.ofString path) entry) .empty
  working := "/w"

def lookout (root : Text) : Watcher := { root, excludes := [], extensions := [Script.extension], names := [] }

theorem mirror_observes_scripts :
    mirror.root "real" = .ok "/w/real" ∧
    Text.ofString "/w/real/sub/b.ps1" ∈ Workspace.scripts mirror.tree "/w/real" [] ∧
    ∃ observed, (lookout "/w/real").observe mirror "/w/real" = .ok observed ∧
      ∀ script ∈ Workspace.scripts mirror.tree "/w/real" [], ∃ inner,
        script = Workspace.placeOf "/w/real" ++ slash :: inner ∧
        directory (join "/w/real" inner) ∈ observed.observedPaths ∧
        (lookout "/w/real").isRelevant (join "/w/real" inner) = true := by
  have accepted : mirror.root "real" = .ok "/w/real" := by decide +kernel
  have formed : mirror.tree.WellFormed := by decide +kernel
  have plain : ¬ mirror.tree.EndsInLink
      (mirror.tree.resolve mirror.working accessLinks false (lookout "/w/real").root) := by
    rintro ⟨place, target, leads, link⟩
    have found : mirror.tree.resolve mirror.working accessLinks false (lookout "/w/real").root =
        .ok "/w/real" := by decide +kernel
    obtain rfl := Except.ok.inj (found.symm.trans leads)
    have stands : mirror.tree.entry? "/w/real" = some .directory := by decide +kernel
    cases stands.symm.trans link
  have sees := observes_scripts mirror (lookout "/w/real") "real" "/w/real" formed (by decide)
    accepted (by decide +kernel) List.mem_cons_self
  exact ⟨accepted, by decide +kernel, sees.1 plain⟩

/-- Through a link the analysis finds scripts and the watcher nothing. -/
theorem mirror_unobserved :
    mirror.tree.WellFormed ∧ mirror.root "alias" = .ok "/w/real" ∧
    (lookout "/w/alias").root = absolute mirror.working "alias" ∧
    Text.ofString "/w/real/a.ps1" ∈ Workspace.scripts mirror.tree "/w/real" [] ∧
    ∃ observed, (lookout "/w/alias").observe mirror "/w/alias" = .ok observed ∧
      directory (join "/w/alias" "a.ps1") ∉ observed.observedPaths := by
  refine ⟨by decide +kernel, by decide +kernel, by decide +kernel, by decide +kernel, ?_⟩
  exact ⟨lookout "/w/alias", by rfl, by decide +kernel⟩

end Watcher

end ScopeLint
