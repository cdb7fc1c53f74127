import ScopeLint.Editor.Document
import ScopeLint.Proofs.Table

/-!
The texts of open documents as the analysis gets them. Documents are kept by URI and handed over by
path, and several URIs may lead to one file. Each path of an open document has an entry, whatever
the order in which the documents are gone through; but where open documents of one path differ, the
last one in that order is the one that counts, and not the one that was edited last.
-/

namespace ScopeLint

/-- What an editor does with a document while the disk is as given. -/
inductive DocumentEdit where
  | opened (workspace : Workspace) (uri : Text) (version : Int) (content : Text)
  | changed (workspace : Workspace) (uri : Text) (version : Int) (content : Text)
  | closed (uri : Text)

namespace DocumentEdit

def uri : DocumentEdit → Text
  | opened _ uri _ _ | changed _ uri _ _ | closed uri => uri

def sent? : DocumentEdit → Option Text
  | opened _ _ _ content | changed _ _ _ content => some content
  | closed _ => none

end DocumentEdit

namespace DocumentStore

def take (store : DocumentStore) : DocumentEdit → DocumentStore
  | .opened workspace uri version content => store.add workspace uri version content
  | .changed workspace uri version content => store.change workspace uri version content
  | .closed uri => store.close uri

/-- The texts by path when the documents are gone through in the given order. -/
def overlayIn (order : List Document) : Table Text :=
  .ofList (order.map fun document => (document.path, document.content))

/-- The overlay is that of one such order. -/
theorem overlay_eq (store : DocumentStore) : store.overlay = overlayIn store.all := rfl

end DocumentStore

/-- Edits of documents, the latest first. -/
abbrev Edits := List DocumentEdit

namespace Edits

open DocumentStore

def store (edits : Edits) : DocumentStore := edits.foldr (fun edit store => store.take edit) .empty

/-- The path of the file that an open URI leads to, as it was found when the URI was opened. -/
def pathOf? : Edits → Text → Option Text
  | [], _ => none
  | .opened workspace uri _ _ :: earlier, other =>
      if other = uri then some (workspace.canonical (Uri.toPath uri)) else pathOf? earlier other
  | .changed workspace uri _ _ :: earlier, other =>
      if other = uri then (pathOf? earlier uri).or (some (workspace.canonical (Uri.toPath uri)))
      else pathOf? earlier other
  | .closed uri :: earlier, other => if other = uri then none else pathOf? earlier other

/-- The text last sent through a URI that was not closed since. -/
def textOf? (edits : Edits) (uri : Text) : Option Text :=
  (edits.find? fun edit => edit.uri = uri).bind DocumentEdit.sent?

/-- The text most recently sent for a file, through whatever URI. -/
def latestFor? : Edits → Text → Option Text
  | [], _ => none
  | edit :: earlier, path =>
      if pathOf? (edit :: earlier) edit.uri = some path then edit.sent? else latestFor? earlier path

inductive Reached (path uri : Text) : Edits → Prop where
  | now {edit : DocumentEdit} {earlier : Edits} (named : edit.uri = uri)
      (leads : pathOf? (edit :: earlier) uri = some path) : Reached path uri (edit :: earlier)
  | before {edit : DocumentEdit} {earlier : Edits} (reached : Reached path uri earlier) :
      Reached path uri (edit :: earlier)

variable {edits earlier : Edits} {edit : DocumentEdit} {uri path text : Text}

@[simp]
theorem textOf_cons (edit : DocumentEdit) (earlier : Edits) (uri : Text) :
    textOf? (edit :: earlier) uri = if edit.uri = uri then edit.sent? else textOf? earlier uri := by
  rw [textOf?, List.find?_cons]
  by_cases named : edit.uri = uri <;> simp [named, textOf?]

theorem pathOf_cons_of_ne (other : edit.uri ≠ uri) :
    pathOf? (edit :: earlier) uri = pathOf? earlier uri := by
  cases edit with
  | opened | changed | closed => exact if_neg (Ne.symm other)

/-- The document that edits leave open under a URI. -/
structure Holds (edits : Edits) (uri : Text) (held : Option Document) : Prop where
  path : held.map Document.path = pathOf? edits uri
  text : held.map Document.content = textOf? edits uri
  named : ∀ document ∈ held, document.uri = uri

theorem get_take_of_ne (store : DocumentStore) (other : edit.uri ≠ uri) :
    (store.take edit).get? uri = store.get? uri := by
  cases edit with
  | opened workspace named version content => exact Table.get_insert_of_ne _ _ (Ne.symm other)
  | changed workspace named version content =>
      simp only [take, change]
      split <;> exact Table.get_insert_of_ne _ _ (Ne.symm other)
  | closed named => exact (Table.get_erase _ _ _).trans (if_neg (Ne.symm other))

theorem holds_insert (documents : Table Document) (document : Document)
    (path : pathOf? edits document.uri = some document.path)
    (text : textOf? edits document.uri = some document.content) :
    Holds edits document.uri
      ((DocumentStore.mk (documents.insert document.uri document)).get? document.uri) := by
  rw [DocumentStore.get?, Table.get_insert_self]
  refine ⟨path.symm, text.symm, ?_⟩
  rintro found ⟨⟩
  rfl

theorem holds_step {store : DocumentStore} (holds : ∀ uri, Holds earlier uri (store.get? uri))
    (edit : DocumentEdit) (uri : Text) :
    Holds (edit :: earlier) uri ((store.take edit).get? uri) := by
  by_cases named : edit.uri = uri
  · subst named
    cases edit with
    | opened workspace uri version content =>
        exact holds_insert _ (documentOf workspace uri version content) (if_pos rfl)
          ((textOf_cons _ _ _).trans (if_pos rfl))
    | changed workspace uri version content =>
        have text : textOf? (.changed workspace uri version content :: earlier) uri = some content :=
          (textOf_cons _ _ _).trans (if_pos rfl)
        have path : pathOf? (.changed workspace uri version content :: earlier) uri =
            ((store.get? uri).map Document.path).or (some (workspace.canonical (Uri.toPath uri))) := by
          rw [(holds uri).path]
          exact if_pos rfl
        rw [DocumentEdit.uri, take, change]
        cases before : store.get? uri with
        | some document =>
            rw [before] at path
            obtain rfl := (holds uri).named document before
            exact holds_insert _ { document with version, content } path text
        | none =>
            rw [before] at path
            exact holds_insert _ (documentOf workspace uri version content) path text
    | closed uri =>
        have gone : (store.take (.closed uri)).get? uri = none :=
          (Table.get_erase _ _ _).trans (if_pos rfl)
        rw [DocumentEdit.uri, gone]
        refine ⟨(if_pos rfl).symm, ?_, by simp⟩
        exact ((textOf_cons (.closed uri) earlier uri).trans (if_pos rfl)).symm
  · obtain ⟨path, text, kept⟩ := holds uri
    rw [get_take_of_ne store named]
    refine ⟨path.trans (pathOf_cons_of_ne named).symm, ?_, kept⟩
    rw [text, textOf_cons, if_neg named]

theorem holds_store (edits : Edits) (uri : Text) : Holds edits uri (edits.store.get? uri) := by
  induction edits generalizing uri with
  | nil => exact ⟨rfl, rfl, by simp [store, DocumentStore.get?, DocumentStore.empty]⟩
  | cons edit earlier induction => exact holds_step induction edit uri

theorem told_of_mem_all {document : Document} (member : document ∈ edits.store.all) :
    pathOf? edits document.uri = some document.path ∧
      textOf? edits document.uri = some document.content := by
  obtain ⟨uri, found⟩ := (Table.mem_values _ _).mp member
  have holds := holds_store edits uri
  rw [DocumentStore.get?, found] at holds
  obtain rfl := holds.named document rfl
  exact ⟨holds.path.symm, holds.text.symm⟩

theorem exists_document (leads : pathOf? edits uri = some path) :
    ∃ document ∈ edits.store.all, document.uri = uri ∧ document.path = path := by
  have holds := holds_store edits uri
  obtain ⟨document, found, same⟩ := Option.map_eq_some_iff.mp (holds.path.trans leads)
  exact ⟨document, (Table.mem_values _ _).mpr ⟨uri, found⟩, holds.named document found, same⟩

theorem get_overlayIn (order : List Document) (path : Text) :
    (overlayIn order).get? path =
      (order.reverse.find? fun document => document.path = path).map Document.content := by
  rw [overlayIn, Table.get_ofList, ← List.map_reverse, List.find?_map, Option.map_map]
  rfl

theorem contains_overlayIn {order : List Document} :
    (overlayIn order).contains path = true ↔ ∃ document ∈ order, document.path = path := by
  simp [Table.contains, get_overlayIn, List.find?_isSome]

theorem get_overlayIn_eq_some {order : List Document}
    (entry : (overlayIn order).get? path = some text) :
    ∃ document ∈ order, document.path = path ∧ document.content = text := by
  rw [get_overlayIn] at entry
  obtain ⟨document, found, rfl⟩ := Option.map_eq_some_iff.mp entry
  have same := List.find?_some found
  exact ⟨document, List.mem_reverse.mp (List.mem_of_find?_eq_some found), of_decide_eq_true same, rfl⟩

/-- Each document comes last in some order. -/
theorem exists_order_last {documents : List Document} {document : Document}
    (member : document ∈ documents) :
    ∃ order, order.Perm documents ∧
      (overlayIn order).get? document.path = some document.content := by
  refine ⟨documents.erase document ++ [document], ?_, ?_⟩
  · exact List.perm_append_singleton _ _ |>.trans (List.perm_cons_erase member).symm
  · simp [get_overlayIn]

theorem reached_of_pathOf (leads : pathOf? edits uri = some path) : Reached path uri edits := by
  induction edits with
  | nil => cases leads
  | cons edit earlier induction =>
      by_cases named : edit.uri = uri
      · exact .now named leads
      · exact .before (induction ((pathOf_cons_of_ne named).symm.trans leads))

/-- A file whose texts all went through one URI has the text last sent through it. -/
theorem textOf_eq_latestFor (leads : pathOf? edits uri = some path)
    (only : ∀ other, Reached path other edits → other = uri) :
    textOf? edits uri = latestFor? edits path := by
  induction edits with
  | nil => cases leads
  | cons edit earlier induction =>
      rw [textOf_cons, latestFor?]
      by_cases named : edit.uri = uri
      · rw [if_pos named, named, if_pos leads]
      · -- This edit sent nothing for the path, which only the one URI reaches.
        have elsewhere : pathOf? (edit :: earlier) edit.uri ≠ some path :=
          fun reached => named (only _ (.now rfl reached))
        rw [if_neg named, if_neg elsewhere]
        exact induction ((pathOf_cons_of_ne named).symm.trans leads)
          fun other reached => only other (.before reached)

theorem overlayIn_entered {order : List Document} (listed : order.Perm edits.store.all) :
    (overlayIn order).contains path = true ↔ ∃ uri, pathOf? edits uri = some path := by
  rw [contains_overlayIn]
  constructor
  · rintro ⟨document, member, rfl⟩
    exact ⟨document.uri, (told_of_mem_all (listed.mem_iff.mp member)).1⟩
  · rintro ⟨uri, leads⟩
    obtain ⟨document, member, -, same⟩ := exists_document leads
    exact ⟨document, listed.mem_iff.mpr member, same⟩

theorem overlayIn_sent {order : List Document} (listed : order.Perm edits.store.all)
    (entry : (overlayIn order).get? path = some text) :
    ∃ uri, pathOf? edits uri = some path ∧ textOf? edits uri = some text := by
  obtain ⟨document, member, rfl, rfl⟩ := get_overlayIn_eq_some entry
  exact ⟨document.uri, told_of_mem_all (listed.mem_iff.mp member)⟩

/-- Open documents of one file that agree put their text in every order. -/
theorem overlayIn_of_agreed {order : List Document} (listed : order.Perm edits.store.all)
    (leads : pathOf? edits uri = some path)
    (agreed : ∀ other, pathOf? edits other = some path →
      textOf? edits other = latestFor? edits path) :
    (overlayIn order).get? path = latestFor? edits path := by
  obtain ⟨text, entry⟩ := (Table.contains_iff _ _).mp ((overlayIn_entered listed).mpr ⟨uri, leads⟩)
  obtain ⟨other, opened, last⟩ := overlayIn_sent listed entry
  rw [entry, ← last, agreed other opened]

/-- The entries of the overlay, in whatever order the documents are gone through: a path has one
just if an open document leads to it, and then it is the text last sent through the URI of such a
document. It is the text most recently sent for the path in every order just if that is the last
text of every open document of the path, as it is for a path that one URI alone has led to. -/
theorem overlay_texts (edits : Edits) (path : Text) :
    (∃ order, order.Perm edits.store.all ∧ edits.store.overlay = overlayIn order) ∧
    (∀ order, order.Perm edits.store.all →
      ((overlayIn order).contains path = true ↔ ∃ uri, pathOf? edits uri = some path) ∧
      ∀ text, (overlayIn order).get? path = some text →
        ∃ uri, pathOf? edits uri = some path ∧ textOf? edits uri = some text) ∧
    ∀ uri, pathOf? edits uri = some path →
      ((∀ order, order.Perm edits.store.all →
          (overlayIn order).get? path = latestFor? edits path) ↔
        ∀ other, pathOf? edits other = some path → textOf? edits other = latestFor? edits path) ∧
      ((∀ other, Reached path other edits → other = uri) →
        ∀ order, order.Perm edits.store.all →
          (overlayIn order).get? path = latestFor? edits path) := by
  refine ⟨⟨_, .refl _, overlay_eq _⟩, ?_, ?_⟩
  · intro order listed
    exact ⟨overlayIn_entered listed, fun text => overlayIn_sent listed⟩
  intro uri leads
  refine ⟨⟨?_, ?_⟩, ?_⟩
  · intro every other opened
    obtain ⟨document, member, rfl, rfl⟩ := exists_document opened
    obtain ⟨order, listed, last⟩ := exists_order_last member
    rw [(told_of_mem_all member).2, ← last, every order listed]
  · intro agreed order listed
    exact overlayIn_of_agreed listed leads agreed
  · intro only order listed
    apply overlayIn_of_agreed listed leads
    intro other opened
    obtain rfl := only other (reached_of_pathOf opened)
    exact textOf_eq_latestFor leads only

/-- One file that is open under two URIs, of which one was edited. -/
def twice : Edits :=
  [.changed ⟨.empty, "/"⟩ "file:///w/%61.ps1" 2 "new",
    .opened ⟨.empty, "/"⟩ "file:///w/%61.ps1" 1 "old",
    .opened ⟨.empty, "/"⟩ "file:///w/a.ps1" 1 "old"]

def settled : Edits := .changed ⟨.empty, "/"⟩ "file:///w/a.ps1" 2 "new" :: twice

theorem settled_texts :
    pathOf? settled "file:///w/%61.ps1" = some (Text.ofString "/w/a.ps1") ∧
      latestFor? settled "/w/a.ps1" = some (Text.ofString "new") ∧
      ∀ order, order.Perm settled.store.all →
        (overlayIn order).get? "/w/a.ps1" = some (Text.ofString "new") := by
  have leads : pathOf? settled "file:///w/%61.ps1" = some (Text.ofString "/w/a.ps1") := by
    decide +kernel
  have latest : latestFor? settled "/w/a.ps1" = some (Text.ofString "new") := by decide +kernel
  refine ⟨leads, latest, ?_⟩
  rw [← latest]
  refine ((overlay_texts settled "/w/a.ps1").2.2 _ leads).1.mpr ?_
  intro other opened
  by_cases plain : other = Text.ofString "file:///w/a.ps1"
  · rw [plain]
    decide +kernel
  by_cases escaped : other = Text.ofString "file:///w/%61.ps1"
  · rw [escaped]
    decide +kernel
  · simp [settled, twice, pathOf?, plain, escaped] at opened

/-- The text that was sent last is not the one that is analysed. -/
theorem twice_stale :
    pathOf? twice "file:///w/%61.ps1" = some (Text.ofString "/w/a.ps1") ∧
      textOf? twice "file:///w/%61.ps1" = some (Text.ofString "new") ∧
      latestFor? twice "/w/a.ps1" = some (Text.ofString "new") ∧
      twice.store.overlay.get? "/w/a.ps1" = some (Text.ofString "old") := by
  decide +kernel

end Edits

end ScopeLint
