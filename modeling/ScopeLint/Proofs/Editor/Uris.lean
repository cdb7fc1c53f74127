import ScopeLint.Proofs.Editor.Session
import ScopeLint.Proofs.Text.Split

/-!
The path of a file and its URI determine each other. Every byte that has a meaning in a URI is written
by its number, the percent sign among them, so reading a written path never meets a digit pair that was
not written for a byte. What is published for a URI therefore belongs to one file.
-/

namespace ScopeLint

namespace Uri

open Text

variable {path other : Text}

theorem hexValue_capitalDigit :
    ∀ digit < 16, hexValue? (capitalDigit digit) = some digit := by decide

theorem unescape_plain {byte : UInt8} (other : byte ≠ percent) (rest : Text) :
    unescape? (byte :: rest) = (unescape? rest).map (byte :: ·) := by
  rw [unescape?.eq_def]
  exact if_neg other

theorem unescape_escapeByte (byte : UInt8) (rest : Text) :
    unescape? (escapeByte byte ++ rest) = (unescape? rest).map (byte :: ·) := by
  unfold escapeByte
  split
  next plain =>
    -- The percent sign itself is never written as it is.
    have other : byte ≠ percent := by
      rintro rfl
      exact absurd plain (by decide)
    rw [List.singleton_append, unescape_plain other]
  next =>
    have small : byte.toNat < 256 := byte.toNat_lt
    have high := hexValue_capitalDigit (byte.toNat / 16) (by omega)
    have low := hexValue_capitalDigit (byte.toNat % 16) (by omega)
    have whole : (byte.toNat / 16 * 16 + byte.toNat % 16).toUInt8 = byte := by
      rw [Nat.div_add_mod']
      exact UInt8.ofNat_toNat
    simp only [List.cons_append, List.nil_append, unescape?, if_true, high, low, Option.bind_eq_bind,
      Option.bind_some, whole]
    cases unescape? rest <;> rfl

theorem unescape_escaped (text : Text) : unescape? (text.flatMap escapeByte) = some text := by
  induction text with
  | nil => rfl
  | cons byte rest induction =>
      rw [List.flatMap_cons, unescape_escapeByte, induction]
      rfl

theorem toPath_ofPath (absolute : path.startsWith "/" = true) : toPath (ofPath path) = path := by
  have read : (ofPath path).after? scheme = some (path.flatMap escapeByte) := by
    rw [ofPath, if_pos absolute]
    exact after_eq_some.mpr rfl
  rw [toPath, read]
  dsimp only
  rw [unescape_escaped, Option.getD_some]

theorem ofPath_injective (absolute : path.startsWith "/" = true)
    (absoluteOther : other.startsWith "/" = true) (same : ofPath path = ofPath other) : path = other := by
  rw [← toPath_ofPath absolute, same, toPath_ofPath absoluteOther]

end Uri

namespace Server

variable {workspace : Workspace} {server : Server} {diagnostics : List Diagnostic} {uri : Text}
  {list : List EditorFinding}

theorem findings_of_published (sent : .findings uri list ∈ (publish workspace server diagnostics).2)
    (nonempty : list ≠ []) : list = findingsFor workspace server diagnostics uri := by
  obtain ⟨⟨_, _⟩, entry, same⟩ := List.mem_map.mp sent
  obtain ⟨rfl, rfl⟩ := Notification.findings.inj same
  have listed := (Table.get_eq_some_iff _ _ _).mpr entry
  rw [get_withCleared, get_group] at listed
  split at listed
  next =>
    -- The lists of files that had findings before and have none now are empty.
    rw [Option.none_or] at listed
    split at listed
    next => exact absurd (Option.some.inj listed).symm nonempty
    next => cases listed
  next => exact (Option.some.inj listed).symm

/-- The findings of a URI are those of the one file that the URI names. -/
theorem findingsFor_ofPath {path : Text} (rooted : path.startsWith "/" = true)
    (absolute : ∀ diagnostic ∈ diagnostics, diagnostic.path.startsWith "/" = true) :
    findingsFor workspace server diagnostics (Uri.ofPath path) =
      (diagnostics.filter fun diagnostic => diagnostic.path = path).map
        (EditorFinding.ofDiagnostic (sourceOf workspace server path)) := by
  have named : ∀ diagnostic ∈ diagnostics,
      decide (Uri.ofPath diagnostic.path = Uri.ofPath path) = decide (diagnostic.path = path) := by
    intro diagnostic member
    exact decide_eq_decide.mpr
      ⟨Uri.ofPath_injective (absolute diagnostic member) rooted, congrArg Uri.ofPath⟩
  rw [findingsFor, List.filter_congr named]
  apply List.map_congr_left
  intro diagnostic member
  have same : diagnostic.path = path := of_decide_eq_true (List.mem_filter.mp member).2
  rw [same]

/-- A URI stands for one file. The path of a file is read back from the URI that is written for it,
whatever bytes it holds; two paths have two URIs; and of diagnostics that name their files by such paths,
each list that is published and not empty is that of one file, namely the one its URI names, with all
diagnostics of the file in their order. -/
theorem uris_name_files :
    (∀ path : Text, path.startsWith "/" = true → Uri.toPath (Uri.ofPath path) = path) ∧
    (∀ path other : Text, path.startsWith "/" = true → other.startsWith "/" = true →
      Uri.ofPath path = Uri.ofPath other → path = other) ∧
    ∀ (workspace : Workspace) (server : Server) (diagnostics : List Diagnostic),
      (∀ diagnostic ∈ diagnostics, diagnostic.path.startsWith "/" = true) →
      ∀ uri list, .findings uri list ∈ (publish workspace server diagnostics).2 → list ≠ [] →
        uri = Uri.ofPath (Uri.toPath uri) ∧
        list = (diagnostics.filter fun diagnostic => diagnostic.path = Uri.toPath uri).map
          (EditorFinding.ofDiagnostic (sourceOf workspace server (Uri.toPath uri))) := by
  refine ⟨fun path => Uri.toPath_ofPath, fun path other => Uri.ofPath_injective, ?_⟩
  intro workspace server diagnostics absolute uri list sent nonempty
  have found := findings_of_published sent nonempty
  -- A finding of the list leads to a file that the URI was written for.
  obtain ⟨finding, rest, rfl⟩ := List.exists_cons_of_ne_nil nonempty
  have member : finding ∈ findingsFor workspace server diagnostics uri := found ▸ List.mem_cons_self
  obtain ⟨diagnostic, inside, -⟩ := List.mem_map.mp member
  obtain ⟨listed, written⟩ := List.mem_filter.mp inside
  have rooted := absolute diagnostic listed
  obtain rfl : Uri.ofPath diagnostic.path = uri := of_decide_eq_true written
  rw [Uri.toPath_ofPath rooted]
  exact ⟨rfl, found.trans (findingsFor_ofPath rooted absolute)⟩

/-- A name with a blank, and one with the digits of a blank. -/
def blankPath : Text := "/w/a b.ps1"

def digitsPath : Text := "/w/a%20b.ps1"

def lax (path : Text) : Diagnostic :=
  ⟨path, 0, 0, "Strict mode not enabled for this file", "no-strict-mode", .warn, [], path, .zero⟩

/-- The path in the URI of the one file is the path of the other, and yet each is published by itself. -/
theorem blank_and_digits_named :
    Uri.ofPath blankPath = Text.ofString "file:///w/a%20b.ps1" ∧
    Uri.toPath (Uri.ofPath blankPath) = blankPath ∧ Uri.toPath (Uri.ofPath digitsPath) = digitsPath ∧
    Uri.ofPath blankPath ≠ Uri.ofPath digitsPath ∧
    ∃ list, .findings (Uri.ofPath digitsPath) list ∈
        (publish ⟨.empty, "/"⟩ { root := none } [lax blankPath, lax digitsPath]).2 ∧
      list = [EditorFinding.ofDiagnostic
        (sourceOf ⟨.empty, "/"⟩ { root := none } digitsPath) (lax digitsPath)] := by
  obtain ⟨read, apart, published⟩ := uris_name_files
  have blank : blankPath.startsWith "/" = true := by decide +kernel
  have digits : digitsPath.startsWith "/" = true := by decide +kernel
  refine ⟨by decide +kernel, read _ blank, read _ digits, fun same => ?_, ?_⟩
  · exact absurd (apart _ _ blank digits same) (by decide +kernel)
  · have absolute : ∀ diagnostic ∈ [lax blankPath, lax digitsPath],
        diagnostic.path.startsWith "/" = true := by decide +kernel
    have alone : [lax blankPath, lax digitsPath].filter (fun diagnostic => diagnostic.path = digitsPath) =
        [lax digitsPath] := by decide +kernel
    have sent : .findings (Uri.ofPath digitsPath) [EditorFinding.ofDiagnostic [] (lax digitsPath)] ∈
        (publish ⟨.empty, "/"⟩ { root := none } [lax blankPath, lax digitsPath]).2 := by
      decide +kernel
    obtain ⟨-, list⟩ := published _ _ _ absolute _ _ sent (List.cons_ne_nil _ _)
    rw [read _ digits, alone] at list
    exact ⟨_, sent, list⟩

end Server

end ScopeLint
