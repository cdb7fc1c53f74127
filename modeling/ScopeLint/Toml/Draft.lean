import ScopeLint.Toml.Scalar

/-!
The tables of a TOML document while it is read. A key may be bound once. A table that exists only
because a longer key leads through it may still be opened by a header of its own, once. The draft
also keeps the order in which keys were written, so that unknown ones can be reported in that order,
and their lines.
-/

namespace ScopeLint.Toml

inductive Value where
  | scalar (value : Scalar)
  | array (items : List Value)
  | table (members : List (Text × Value))
  /-- An array of tables, of which headers and keys refer to the last. -/
  | tables (elements : List (List (Text × Value)))

def Value.typeName : Value → Text
  | scalar (.string _) => "string"
  | scalar (.integer _) => "int64"
  | scalar (.float _) => "float64"
  | scalar (.boolean _) => "bool"
  | scalar (.moment _) => "time.Time"
  | array _ => "[]any"
  | table _ => "map[string]any"
  | tables _ => "[]map[string]any"

def Value.isArray : Value → Bool
  | array _ => true
  | _ => false

abbrev Members := List (Text × Value)

namespace Members

def get? (members : Members) (name : Text) : Option Value := List.lookup name members

/-- Binds a name, in its place when it is bound already. -/
def put (members : Members) (name : Text) (value : Value) : Members :=
  if (get? members name).isSome then
    members.map fun (other, kept) => (other, if other = name then value else kept)
  else members ++ [(name, value)]

/-- The table that a key leads to behind `front`, through the last table of every array of tables.
Fails with the key of the first value on the way that is no table. -/
def tableAt (front : Key) : Members → Key → Except Key Members
  | members, [] => .ok members
  | members, name :: rest =>
      let next := front ++ [name]
      match get? members name with
      | some (.table inner) => tableAt next inner rest
      | some (.tables elements) => tableAt next (elements.getLastD []) rest
      | _ => .error next

def changeAt (change : Members → Members) : Members → Key → Members
  | members, [] => change members
  | members, name :: rest =>
      match get? members name with
      | some (.table inner) => put members name (.table (changeAt change inner rest))
      | some (.tables elements) =>
          let changed := elements.getLast?.toList.map fun last => changeAt change last rest
          put members name (.tables (elements.dropLast ++ changed))
      | _ => members

/-- Binds a key of several names, with the tables on the way. Fails where a name on the way is
bound to something else. -/
def bind? : Members → Key → Value → Option Members
  | members, [], _ => some members
  | members, [name], value => some (put members name value)
  | members, name :: rest, value =>
      match get? members name with
      | none => (bind? [] rest value).map fun inner => put members name (.table inner)
      | some (.table inner) => (bind? inner rest value).map fun inner => put members name (.table inner)
      | some _ => none

end Members

/-- Where the value of a key was written, and whether it is an array. -/
structure Origin where
  line : Nat
  isArray : Bool

structure Draft where
  members : Members := []
  /-- Tables that a longer key has led through. -/
  implied : List Key := []
  /-- The origins of keys, the latest first. -/
  origins : List (Key × Origin) := []
  /-- All keys that were written, in order. -/
  written : List Key := []

namespace Draft

def imply (draft : Draft) (key : Key) : Draft :=
  { draft with implied := key :: draft.implied.filter (· ≠ key) }

def settle (draft : Draft) (key : Key) : Draft :=
  { draft with implied := draft.implied.filter (· ≠ key) }

def list (draft : Draft) (key : Key) : Draft := { draft with written := draft.written ++ [key] }

def note (draft : Draft) (key : Key) (origin : Origin) : Draft :=
  { draft with origins := (key, origin) :: draft.origins }

/-- Notes the origin of a name in a context. An empty name counts for the table that it is in. -/
def noteName (draft : Draft) (context : Key) (name : Text) (origin : Origin) : Draft :=
  draft.note (if name = [] && context ≠ [] then context else context ++ [name]) origin

def isArray (draft : Draft) (key : Key) : Bool := (draft.origins.lookup key).any Origin.isArray

def putAt (draft : Draft) (context : Key) (name : Text) (value : Value) : Draft :=
  { draft with members := draft.members.changeAt (·.put name value) context }

/-- Binds a name in the table of a context. A bound name is taken up only if it was implied: its
table stays as it is, and an array replaces the tables that stood for it. -/
def set (draft : Draft) (context : Key) (name : Text) (value : Value) : Except Fault Draft := do
  let table ← (draft.members.tableAt [] context).mapError .alreadyDefined
  let key := context ++ [name]
  if (table.get? name).isNone then return draft.putAt context name value
  else if !draft.implied.contains key then .error (.alreadyDefined key)
  else if draft.isArray key then return (draft.settle key).putAt context name value
  else return draft.settle key

/-- Makes the tables that a key leads through, as implied ones. -/
def makeWay (draft : Draft) : (front : Key) → Key → Except Fault Draft
  | _, [] => .ok draft
  | front, name :: rest => do
      let table ← (draft.members.tableAt [] front).mapError .wayBlocked
      let next := front ++ [name]
      let draft :=
        if (table.get? name).isSome then draft
        else (draft.imply next).putAt front name (.table [])
      let _ ← (draft.members.tableAt [] next).mapError .wayBlocked
      makeWay draft next rest

def addElement (draft : Draft) (context : Key) (name : Text) : Except Fault Draft := do
  let table ← (draft.members.tableAt [] context).mapError .wayBlocked
  match table.get? name with
  | none => return draft.putAt context name (.tables [[]])
  | some (.tables elements) => return draft.putAt context name (.tables (elements ++ [[]]))
  | some _ => .error (.notTables (context ++ [name]))

end Draft

end ScopeLint.Toml
