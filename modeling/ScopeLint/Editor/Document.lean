import ScopeLint.Editor.Uri
import ScopeLint.Project.Workspace

/-!
The documents that are open in an editor. They are known by their URIs; what the analysis needs is
the text that each of them puts in place of a file.
-/

namespace ScopeLint

structure Document where
  uri : Text
  /-- The canonical path of the file that it edits, found when it was opened. -/
  path : Text
  version : Int
  content : Text
  deriving DecidableEq, Repr

structure DocumentStore where
  documents : Table Document

namespace DocumentStore

def empty : DocumentStore := ⟨∅⟩

def get? (store : DocumentStore) (uri : Text) : Option Document := store.documents.get? uri

def documentOf (workspace : Workspace) (uri : Text) (version : Int) (content : Text) : Document :=
  ⟨uri, workspace.canonical (Uri.toPath uri), version, content⟩

/-- Opens a document, in place of one that its URI named before. -/
def add (store : DocumentStore) (workspace : Workspace) (uri : Text) (version : Int)
    (content : Text) : DocumentStore :=
  ⟨store.documents.insert uri (documentOf workspace uri version content)⟩

/-- Replaces the text of a document, which keeps its path. One that is not open is opened. -/
def change (store : DocumentStore) (workspace : Workspace) (uri : Text) (version : Int)
    (content : Text) : DocumentStore :=
  match store.get? uri with
  | some document => ⟨store.documents.insert uri { document with version, content }⟩
  | none => store.add workspace uri version content

def close (store : DocumentStore) (uri : Text) : DocumentStore := ⟨store.documents.erase uri⟩

def all (store : DocumentStore) : List Document := store.documents.values

/-- The texts that replace those of files, by path. -/
def overlay (store : DocumentStore) : Table Text :=
  .ofList (store.all.map fun document => (document.path, document.content))

end DocumentStore

end ScopeLint
