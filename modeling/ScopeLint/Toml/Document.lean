import ScopeLint.Toml.Draft

/-!
Reading a TOML document. Every key and value is put into the draft as soon as it is read, so of
several faults in a document the first one counts, whether a character is wrong or a key is bound
twice.
-/

namespace ScopeLint.Toml

namespace Scan

/-- Reads one name of a key: a string of one line, or a run of letters, digits, dashes and
underscores, which is empty where there is none. -/
def keyName : Scan Text := do
  match ← peek with
  | some '"' => do
      let _ ← next
      lineString '"'
  | some '\'' => do
      let _ ← next
      lineString '\''
  | _ => readWhile fun char => (Text.ofChar char).all isKeyByte

/-- Reads the names of a key up to the mark that binds it, which stands within `bound`. -/
def keyNames : (bound : List Piece) → Scan Key
  | [] => fail .blankName
  | _ :: bound => do
      skipGaps
      match ← peek with
      | none => fail .blankName
      | some '=' => fail .blankName
      | some '.' => fail .dotBeforeName
      | some _ => do
          let name ← keyName
          skipGaps
          match ← next with
          | none => failOn none .keyAlone
          | some '.' => return name :: (← keyNames bound)
          | some '=' => return [name]
          | some '\n' => failBefore (.afterName '\n')
          | some found => fail (.afterName found)

def key : Scan Key := do
  skipGaps
  match ← peek with
  | none => fail .blankKey
  | some '=' => fail .blankKey
  | some '.' => fail .dotBeforeKey
  | some _ => keyNames (← get).rest

def headerNames : (bound : List Piece) → Scan Key
  | [] => fail .emptyHeader
  | _ :: bound => do
      skipGaps
      match ← peek with
      | none => fail .emptyHeader
      | some ']' => fail .emptyHeader
      | some '.' => fail .dotInHeader
      | some _ => do
          let name ← keyName
          skipGaps
          match ← next with
          | some '.' => return name :: (← headerNames bound)
          | some ']' => return [name]
          | found => failOn found (.openHeader found)

def header (isElement : Bool) : Scan Key := do
  let names ← headerNames (← get).rest
  if isElement then
    match ← next with
    | some ']' => return names
    | found => failOn found (.openElement found)
  else return names

def lineRest : Scan Unit := do
  skipGaps
  match ← peek with
  | none => return ()
  | some found =>
      if found = '#' || isLineEnd found then skipLines else fail (.afterEntry found)

end Scan

structure Reading where
  cursor : Cursor
  draft : Draft := {}
  /-- The table that names are bound in. -/
  context : Key := []
  /-- The name whose value is read, empty between pairs. -/
  name : Text := []
  /-- The line of the key that was read last. -/
  keyLine : Nat := 0

/-- The key that is being bound, the table outside pairs. -/
def Reading.lastKey (reading : Reading) : Text :=
  if reading.name = [] then keyText reading.context
  else if reading.context = [] then reading.name
  else keyText reading.context ++ "." ++ reading.name

abbrev Reader := StateT Reading (Except Error)

namespace Reader

def scan {Result : Type} (part : Scan Result) : Reader Result := fun reading =>
  match part reading.cursor with
  | .ok (result, cursor) => .ok (result, { reading with cursor })
  | .error stop => .error ⟨some stop.line, reading.lastKey, stop.fault⟩

/-- Changes the draft. A fault belongs to the key that was read last. -/
def revise (change : Draft → Except Fault Draft) : Reader Unit := fun reading =>
  match change reading.draft with
  | .ok draft => .ok ((), { reading with draft })
  | .error fault => .error ⟨some reading.keyLine, reading.lastKey, fault⟩

def line : Reader Nat := return (← get).cursor.line

/-- Opens a table, or the next table of an array of tables, as the context. -/
def enter (key : Key) (isElement : Bool) : Reader Unit := do
  let context := key.dropLast
  let name := key.getLastD []
  revise (·.makeWay [] context)
  modify fun reading => { reading with context }
  if isElement then revise (·.addElement context name)
  else revise (·.set context name (.table []))
  modify fun reading => { reading with context := key }

def enterAll : (names : Key) → Reader Unit
  | [] => return ()
  | name :: rest => do
      let next := (← get).context ++ [name]
      revise fun draft => return draft.imply next
      enter next false
      enterAll rest

def openKey : Reader Key := do
  let key ← scan Scan.key
  let keyLine ← line
  modify fun reading => { reading with keyLine, name := key.getLastD [] }
  enterAll key.dropLast
  modify fun reading =>
    { reading with draft := reading.draft.list (reading.context ++ [reading.name]) }
  return key

def note (line : Nat) (isArray : Bool) : Reader Unit :=
  modify fun reading => { reading with
    draft := reading.draft.noteName reading.context reading.name ⟨line, isArray⟩ }

def bindName (line : Nat) (value : Value) : Reader Unit := do
  let reading ← get
  revise (·.set reading.context reading.name value)
  note line value.isArray

def gather (values : Members) (key : Key) (value : Value) : Reader Members := fun reading =>
  match values.bind? key value with
  | some values => .ok (values, reading)
  | none => .error ⟨some reading.keyLine, reading.lastKey, .notTable reading.context⟩

mutual

def value : (fuel : Nat) → (inArray : Bool) → Reader (Value × Nat)
  | 0, _ => scan (Scan.fail .valueMissing)
  | fuel + 1, inArray => do
      scan Scan.skipGaps
      let start ← line
      if ← scan (Scan.accept '[') then
        note start true
        return (.array (← items fuel), start)
      else if ← scan (Scan.accept '\x7b') then
        return (.table (← inlineTable fuel inArray), start)
      else
        let scalar ← scan Scan.scalar
        return (.scalar scalar, ← line)

/-- Reads the items of an array from the next one on. A comma may stand behind the last one. -/
def items : (fuel : Nat) → Reader (List Value)
  | 0 => return []
  | fuel + 1 => do
      scan Scan.skipLines
      match ← scan Scan.peek with
      | some ',' => scan (Scan.fail .misplacedComma)
      | some ']' => do
          let _ ← scan Scan.next
          return []
      | _ => do
          let (item, _) ← value fuel true
          scan Scan.skipLines
          match ← scan Scan.next with
          | some ',' => return item :: (← items fuel)
          | some ']' => return [item]
          | found => scan (Scan.failOn found (.afterItem found))

/-- Reads an inline table, whose members are bound in the draft on the way. -/
def inlineTable : (fuel : Nat) → (inArray : Bool) → Reader Members
  | 0, _ => return []
  | fuel + 1, inArray => do
      let outer ← get
      let key := outer.context ++ [outer.name]
      modify fun reading =>
        { reading with context := key, name := [], draft := reading.draft.imply key }
      enter key inArray
      let values ← members fuel key []
      modify fun reading => { reading with context := outer.context, name := outer.name }
      return values

def members : (fuel : Nat) → (context : Key) → (values : Members) → Reader Members
  | 0, _, values => return values
  | fuel + 1, context, values => do
      scan Scan.skipLines
      match ← scan Scan.peek with
      | some ',' => scan (Scan.fail .misplacedComma)
      | some '\x7d' => do
          let _ ← scan Scan.next
          return values
      | _ => do
          let key ← openKey
          let keyLine ← line
          let (value, _) ← value fuel false
          bindName keyLine value
          let values ← gather values key value
          modify fun reading => { reading with context }
          scan Scan.skipLines
          match ← scan Scan.next with
          | some ',' => members fuel context values
          | some '\x7d' => return values
          | found => scan (Scan.failOn found (.afterMember found))

end

def header : Reader Unit := do
  let keyLine ← line
  let isElement ← scan (Scan.accept '[')
  let key ← scan (Scan.header isElement)
  modify fun reading => { reading with keyLine }
  enter key isElement
  modify fun reading =>
    { reading with draft := (reading.draft.note key ⟨keyLine, false⟩).list key }

/-- Reads a key with its value. Every second level of a value takes a character, which bounds the
depth that there can be. -/
def pair : Reader Unit := do
  let context := (← get).context
  let _ ← openKey
  let (value, start) ← value (2 * (← get).cursor.rest.length + 2) false
  bindName start value
  modify fun reading => { reading with context, name := [] }

def entries : (fuel : Nat) → Reader Unit
  | 0 => return ()
  | fuel + 1 => do
      scan Scan.skipLines
      if (← scan Scan.peek).isSome then
        if ← scan (Scan.accept '[') then header else pair
        scan Scan.lineRest
        entries fuel

end Reader

/-- The tables of a document, its keys in the order they were written, and where their values are. -/
structure Document where
  members : Members
  written : List Key
  origins : List (Key × Origin)

namespace Document

def encodingMarks : List Text := [[0xFF, 0xFE], [0xFE, 0xFF], Text.byteOrderMark]

/-- How many bytes are searched for a zero, which most often means another encoding. -/
def zeroReach : Nat := 6

def read (text : Text) : Except Error Document := do
  let text := (encodingMarks.findSome? text.after?).getD text
  if (text.take zeroReach).elem 0 then .error ⟨some 1, [], .zeroByte⟩
  else
    let (_, reading) ← Reader.entries (text.length + 1) { cursor := { rest := text.pieces } }
    return ⟨reading.draft.members, reading.draft.written, reading.draft.origins⟩

def error (document : Document) (key : Key) (fault : Fault) : Error :=
  ⟨(document.origins.lookup key).map Origin.line, keyText key, fault⟩

end Document

end ScopeLint.Toml
