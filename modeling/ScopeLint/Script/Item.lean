import ScopeLint.Source.Location
import ScopeLint.Text.Case

/-!
The named things that scripts define and use. Names are compared ignoring case, and functions
and classes live in separate name spaces; the key of an item is what lookups go by.
-/

namespace ScopeLint

inductive ItemKind where
  | function
  | classType
  /-- A mark that is put into files during analysis and not written in any source. Marks share
  the name space of functions. -/
  | pseudo
  deriving DecidableEq, Repr, Inhabited

def ItemKind.text : ItemKind → Text
  | function => "function"
  | .classType => "class"
  | pseudo => "pseudoitem"

structure Item where
  name : Text
  kind : ItemKind
  deriving DecidableEq, Repr, Inhabited

/-- What an item is looked up by: the lowercase name and the name space. -/
structure Key where
  name : Text
  isClass : Bool
  deriving DecidableEq, Repr

/-- Keys in byte order of their names, a function before a class of the same name. -/
def Key.le (left right : Key) : Bool :=
  left.name < right.name || (left.name = right.name && (!left.isClass || right.isClass))

namespace Item

def key (item : Item) : Key := ⟨item.name.lower, item.kind = .classType⟩

def text (item : Item) : Text := item.kind.text ++ " " ++ item.name

end Item

structure Definition where
  item : Item
  span : Span
  deriving DecidableEq, Repr, Inhabited

structure Usage where
  item : Item
  span : Span
  deriving DecidableEq, Repr, Inhabited

structure Testcase where
  name : Text
  span : Span
  deriving DecidableEq, Repr

inductive Importee where
  /-- A path relative to the directory of the importing file, with slashes. -/
  | relative (path : Text)
  /-- The file that a test file tests. -/
  | tested
  /-- Anything that is not understood. -/
  | unrecognized (text : Text)
  deriving DecidableEq, Repr

def Importee.text : Importee → Text
  | relative path => "$PSScriptRoot/" ++ path
  | tested => "$here/$sut"
  | unrecognized text => text

structure Import where
  importee : Importee
  span : Span
  deriving DecidableEq, Repr

end ScopeLint
