import ScopeLint.Json.String
import ScopeLint.Lint.Basic
import ScopeLint.Source.Location

/-!
Diagnostics: single findings as they are reported, their order, and the two listings of them as
plain text and as JSON.
-/

namespace ScopeLint

structure Diagnostic where
  /-- The file as reports name it. -/
  file : Text
  /-- The line, zero for a finding about the whole file. -/
  line : Int
  col : Int
  message : Text
  /-- The slug of the lint. -/
  code : Text
  level : Level
  notes : List Text
  /-- The absolute path of the file. -/
  path : Text
  span : Span
  deriving DecidableEq, Repr

namespace Diagnostic

def isWholeFile (diagnostic : Diagnostic) : Bool := diagnostic.line = 0

def position (diagnostic : Diagnostic) : Text :=
  if diagnostic.line = 0 then diagnostic.file
  else if diagnostic.col > 0 then
    diagnostic.file ++ ":" ++ Text.ofInt diagnostic.line ++ ":" ++ Text.ofInt diagnostic.col
  else diagnostic.file ++ ":" ++ Text.ofInt diagnostic.line

def noteLine (note : Text) : Text := "\n  = note: " ++ note

def text (diagnostic : Diagnostic) : Text :=
  diagnostic.position ++ ": " ++ diagnostic.level.text ++ ": " ++ diagnostic.message ++ " ("
    ++ diagnostic.code ++ ")" ++ diagnostic.notes.flatMap noteLine

def listing (diagnostics : List Diagnostic) : Text :=
  diagnostics.flatMap fun diagnostic => diagnostic.text ++ [Text.lineFeed]

/-- By file, line, column and lint. -/
def le (left right : Diagnostic) : Bool :=
  if left.file ≠ right.file then left.file < right.file
  else if left.line ≠ right.line then left.line < right.line
  else if left.col ≠ right.col then left.col < right.col
  else left.code ≤ right.code

/-- In the order of `le`; equal ones keep their order. -/
def sort (diagnostics : List Diagnostic) : List Diagnostic := diagnostics.mergeSort le

/-- Whether any finding fails the run. -/
def anyDenied (diagnostics : List Diagnostic) : Bool :=
  diagnostics.any fun diagnostic => diagnostic.level = .deny

def indented (depth : Nat) (item : Text) : Text :=
  "\n" ++ Text.spaces (2 * depth + 2) ++ item

def block (depth : Nat) (opening closing : Text) (items : List Text) : Text :=
  if items.isEmpty then opening ++ closing
  else
    opening ++ Text.join "," (items.map (indented depth)) ++ "\n"
      ++ Text.spaces (2 * depth) ++ closing

def member (name : String) (value : Text) : Text :=
  JsonString.write name ++ ": " ++ value

def object (depth : Nat) (members : List Text) : Text := block depth "\x7b" "\x7d" members

def numberMember (name : String) (number : Int) : List Text :=
  if number = 0 then [] else [member name (Text.ofInt number)]

/-- A diagnostic as a JSON object. Zero numbers and empty notes are left out. -/
def json (diagnostic : Diagnostic) : Text :=
  let place := object 2 ([member "file" (JsonString.write diagnostic.file)]
    ++ numberMember "line" diagnostic.line ++ numberMember "col" diagnostic.col)
  let notes := if diagnostic.notes.isEmpty then []
    else [member "notes" (block 2 "[" "]" (diagnostic.notes.map JsonString.write))]
  object 1 ([member "pos" place, member "message" (JsonString.write diagnostic.message),
    member "analyzer" (JsonString.write diagnostic.code),
    member "level" (JsonString.write diagnostic.level.text)] ++ notes)

def jsonListing (diagnostics : List Diagnostic) : Text :=
  block 0 "[" "]" (diagnostics.map json) ++ "\n"

end Diagnostic

namespace Level

inductive JsonError where
  /-- Not a string at all. -/
  | notAString
  /-- A string that names no level. -/
  | unknown (name : Text)

/-- The level that a JSON text names; null reads as the empty name. -/
def ofJson (text : Text) : Except JsonError Level :=
  match if JsonString.isNull text then some [] else JsonString.read? text with
  | none => .error .notAString
  | some name =>
      match parse? name with
      | some level => .ok level
      | none => .error (.unknown name)

def json (level : Level) : Text := JsonString.write level.text

end Level

end ScopeLint
