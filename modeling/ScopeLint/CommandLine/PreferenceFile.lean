import ScopeLint.Project.Workspace
import ScopeLint.Text.Blank
import ScopeLint.Text.Integer
import ScopeLint.Text.Quoted

/-!
The preferences file of a user: lines with a key and a value in the form of YAML. Deeper lines
continue the value above them or make it a collection, which holds no preference. A file that is
not of this form is not used at all, and the fault says why.
-/

namespace ScopeLint

inductive PreferenceFault where
  | file (error : FileError)
  | unsupported (type : Text)
  /-- The file holds something else than keys with values, from a line on. -/
  | misfit (what : Text) (line : Nat)
  /-- Keys that are given again, each with the two lines. -/
  | repeated (keys : List (Text × Nat × Nat))
  /-- Nothing can start with the character that a line or its value starts with. -/
  | noToken (line : Nat)
  /-- A tab stands in front of what could continue the value of a line. -/
  | tabInFront (line : Nat)
  /-- A value has a colon as a key has it. -/
  | colonInValue (line : Nat)
  /-- A line between keys with values has no colon. -/
  | colonMissing (line : Nat)
  deriving DecidableEq, Repr

namespace PreferenceFault

/-- A line in front of a message. The first line is not named. -/
def atLine (line : Nat) (message : Text) : Text :=
  if line ≤ 1 then message else "line " ++ Text.ofNat line ++ ": " ++ message

def repeatedText (repeated : Text × Nat × Nat) : Text :=
  let (key, line, first) := repeated
  "\n  line " ++ Text.ofNat line ++ ": mapping key " ++ key.quote ++ " already defined at line "
    ++ Text.ofNat first

def complaint (message : Text) : Text := "While parsing config: yaml: " ++ message

def message : PreferenceFault → Text
  | file error => error.message
  | unsupported type => "Unsupported Config Type " ++ type.quote
  | misfit what line =>
      complaint ("unmarshal errors:\n  line " ++ Text.ofNat line ++ ": cannot unmarshal " ++ what
        ++ " into map[string]interface \x7b\x7d")
  | repeated keys => complaint ("unmarshal errors:" ++ keys.flatMap repeatedText)
  | noToken line => complaint (atLine line "found character that cannot start any token")
  | tabInFront line => complaint (atLine line "found a tab character that violates indentation")
  | colonInValue line => complaint (atLine line "mapping values are not allowed in this context")
  | colonMissing line => complaint (atLine line "could not find expected ':'")

end PreferenceFault

namespace PreferenceFile

def colon : UInt8 := 0x3A

def hash : UInt8 := 0x23

def singleQuote : UInt8 := 0x27

def doubleQuote : UInt8 := 0x22

def isGap (byte : UInt8) : Bool := byte = 0x20 || byte = 0x09

/-- The text before a comment, which starts with a hash behind a blank. -/
def dropComment : (behindBlank : Bool) → Text → Text
  | _, [] => []
  | behindBlank, byte :: rest =>
      if byte = hash && behindBlank then [] else byte :: dropComment (isGap byte) rest

/-- What follows a colon that ends a key: a blank or nothing stands behind it. -/
def afterColon? : Text → Option Text
  | [] => none
  | byte :: rest =>
      if byte = colon && (rest.head?.all isGap) then some rest else none

/-- A plain key and what follows its colon. No colon counts behind the start of a comment. -/
def cutPair? : (behindBlank : Bool) → Text → Option (Text × Text)
  | _, [] => none
  | behindBlank, byte :: rest =>
      if byte = hash && behindBlank then none
      else match afterColon? (byte :: rest) with
        | some value => some ([], value)
        | none => (cutPair? (isGap byte) rest).map fun (key, value) => (byte :: key, value)

/-- What a text between single quotes stands for, and what follows it: two quotes are one. -/
def singleQuoted : Text → Text × Text
  | [] => ([], [])
  | byte :: rest =>
      if byte ≠ singleQuote then
        let (content, behind) := singleQuoted rest
        (byte :: content, behind)
      else match rest with
        | 0x27 :: rest =>
            let (content, behind) := singleQuoted rest
            (singleQuote :: content, behind)
        | _ => ([], rest)

/-- The escapes between double quotes whose letter does not stand for itself. -/
def escapes : List (UInt8 × Text) :=
  [(0x30, [0x00]), (0x61, [0x07]), (0x62, [0x08]), (0x74, [0x09]), (0x6E, [0x0A]), (0x76, [0x0B]),
    (0x66, [0x0C]), (0x72, [0x0D]), (0x65, [0x1B]), (0x4E, Text.ofChar '\u0085'),
    (0x5F, Text.ofChar '\u00A0'), (0x4C, Text.ofChar '\u2028'), (0x50, Text.ofChar '\u2029')]

def doubleQuoted : (escaped : Bool) → Text → Text × Text
  | _, [] => ([], [])
  | true, letter :: rest =>
      let (content, behind) := doubleQuoted false rest
      ((escapes.lookup letter).getD [letter] ++ content, behind)
  | false, byte :: rest =>
      if byte = doubleQuote then ([], rest)
      else if byte = 0x5C then doubleQuoted true rest
      else
        let (content, behind) := doubleQuoted false rest
        (byte :: content, behind)

def quoted? : Text → Option (Text × Text)
  | 0x27 :: rest => some (singleQuoted rest)
  | 0x22 :: rest => some (doubleQuoted false rest)
  | _ => none

def pair? (body : Text) : Option (Text × Text) :=
  match quoted? body with
  | some (key, rest) => (afterColon? (rest.dropWhile isGap)).map fun value => (key, value)
  | none => (cutPair? true body).map fun (key, value) => (Text.trimEnd key, value)

/-- A line that holds something else than a comment. -/
structure Line where
  number : Nat
  indent : Nat
  /-- The line without its indentation and the blanks at its end. -/
  body : Text

def documentMark : Text := "---"

def linesOf (text : Text) : List Line :=
  let lines := (text.dropMark.splitOn Text.lineFeed).zipIdx 1
  (lines.map fun (line, number) =>
    let body := Text.trimEnd (line.dropWhile (· = 0x20))
    (⟨number, (line.takeWhile (· = 0x20)).length, body⟩ : Line)).filter fun line =>
      line.body ≠ [] && line.body.head? ≠ some hash && line.body ≠ documentMark

/-- A value while lines may still continue it. -/
inductive Content where
  /-- Words without quotes, nothing at all before the first. -/
  | plain (words : Text)
  | quoted (text : Text)
  | collection

structure Entry where
  key : Text
  line : Nat
  content : Content

def nullWords : List Text := ["", "~", "null", "Null", "NULL"].map Text.ofString

def truthWords : List (Text × Text) :=
  [("true", "true"), ("True", "true"), ("TRUE", "true"), ("false", "false"), ("False", "false"),
    ("FALSE", "false")]

/-- The integer that a plain value is. Underscores in it mean nothing, but none stands in front. -/
def integer? (text : Text) : Option Int :=
  let underscore := Text.byte '_'
  if text.head? = some underscore then none
  else (Text.integer (text.filter (· ≠ underscore))).toOption

/-- A plain value in the one spelling of its kind: truth values in small letters, integers in
decimal digits, and everything else as written. -/
def plain (text : Text) : Text :=
  match truthWords.lookup text, integer? text with
  | some word, _ => word
  | none, some number => Text.ofInt number
  | none, none => text

def kindOf (text : Text) : Text :=
  match truthWords.lookup text, integer? text with
  | some _, _ => "!!bool"
  | none, some _ => "!!int"
  | none, none => "!!str"

/-- The text that a value gives. A collection gives the empty one. -/
def Content.text? : Content → Option Text
  | plain words => if nullWords.contains words then none else some (PreferenceFile.plain words)
  | quoted text => some text
  | collection => some []

def idleMarks : List UInt8 := [Text.byte '@', 0x60, 0x09]

def contentOf (line : Nat) (rest : Text) : Except PreferenceFault Content :=
  let value := rest.dropWhile isGap
  match quoted? value with
  | some (text, _) => .ok (.quoted text)
  | none =>
      let words := Text.trimEnd (dropComment true value)
      if words.head?.any (Text.byte '%' :: idleMarks).contains then .error (.noToken line)
      else if words.head?.any [Text.byte '[', Text.byte '\x7b'].contains then .ok .collection
      else if (cutPair? false words).isSome then .error (.colonInValue line)
      else .ok (.plain words)

def isItem (body : Text) : Bool := body = Text.ofString "-" || body.startsWith "- "

/-- Whether a line belongs to the entry above it, whose lines start at an indentation. The items of
a collection need no deeper one. -/
def Entry.owns (entry : Entry) (indent : Nat) (line : Line) : Bool :=
  indent < line.indent || match entry.content with
    | .plain words => words = [] && isItem line.body
    | .quoted _ => false
    | .collection => isItem line.body

def Entry.continued (entry : Entry) (line : Line) : Except PreferenceFault Content :=
  match entry.content with
  | .plain words =>
      let isPair := (pair? line.body).isSome
      if words = [] && (isPair || isItem line.body) then .ok .collection
      else if isPair then .error (.colonInValue line.number)
      else
        let more := Text.trimEnd (dropComment true line.body)
        .ok (.plain (if words = [] then more else words ++ [0x20] ++ more))
  | other => .ok other

def entryOf (line : Line) : Except PreferenceFault Entry :=
  match pair? line.body with
  | some (key, rest) => do
      return ⟨key, line.number, ← contentOf line.number rest⟩
  | none => .error (.colonMissing line.number)

/-- The fault of a line that starts with a character that nothing starts with. A tab behind a plain
value is looked at as a part of that value, and the fault is given to the line of the value unless
that is the first one. -/
def idleFault (entries : List Entry) (line : Line) : PreferenceFault :=
  match entries with
  | ⟨_, start, .plain (_ :: _)⟩ :: _ =>
      if line.body.head? = some 0x09 then .tabInFront (if start ≤ 1 then line.number else start)
      else .noToken line.number
  | _ => .noToken line.number

/-- The entries with one more line, the last entry first. -/
def add (indent : Nat) (entries : List Entry) (line : Line) :
    Except PreferenceFault (List Entry) := do
  if line.body.head?.any idleMarks.contains then .error (idleFault entries line)
  else match entries with
    | [] => return [← entryOf line]
    | entry :: others =>
        if entry.owns indent line then
          return { entry with content := ← entry.continued line } :: others
        else return (← entryOf line) :: entries

def shortened (value : Text) : Text :=
  if 10 < value.length then value.take 7 ++ "..." else value

/-- Why lines are no keys with values when the first one is none. A file that holds only a word for
nothing holds no keys. -/
def misfit? (first : Line) (rest : List Line) : Option PreferenceFault :=
  if isItem first.body then some (.misfit "!!seq" first.number)
  else match quoted? first.body with
    | some (text, _) => some (scalar "!!str" text)
    | none =>
        match rest.find? fun line => (pair? line.body).isSome with
        | some line => some (.colonInValue line.number)
        | none =>
            let words := (first :: rest).map fun line => Text.trimEnd (dropComment true line.body)
            let folded := Text.join [0x20] words
            if nullWords.contains folded then none else some (scalar (kindOf folded) folded)
where
  scalar (kind text : Text) : PreferenceFault :=
    .misfit (kind ++ " \x60" ++ shortened text ++ "\x60") first.number

/-- The keys that are given again, in the order of their first lines. -/
def repetitions : List Entry → List (Text × Nat × Nat)
  | [] => []
  | entry :: rest =>
      (rest.filter fun other => other.key = entry.key).map (fun other =>
        (other.key, other.line, entry.line)) ++ repetitions rest

/-- The preferences by key in small letters. A key with capitals wins over one without. -/
def table (entries : List Entry) : Table Text :=
  let (small, capital) := entries.partition fun entry => entry.key.lower = entry.key
  .ofList ((small ++ capital).filterMap fun entry =>
    entry.content.text?.map fun text => (entry.key.lower, text))

def parse (text : Text) : Except PreferenceFault (Table Text) :=
  match linesOf text with
  | [] => .ok ∅
  | first :: rest => do
      if (pair? first.body).isNone && !(first.body.head?.any idleMarks.contains) then
        match misfit? first rest with
        | some fault => .error fault
        | none => .ok ∅
      else
        let entries ← (first :: rest).foldlM (add first.indent) []
        match repetitions entries.reverse with
        | [] => .ok (table entries.reverse)
        | repeated => .error (.repeated repeated)

def yamlTypes : List Text := ["yaml", "yml"].map Text.ofString

/-- The other types of files that may be named. No preferences are taken from them. -/
def otherTypes : List Text :=
  ["json", "toml", "properties", "props", "prop", "hcl", "tfvars", "dotenv", "env", "ini"].map
    Text.ofString

def homeName : Text := ".shelly.yaml"

def read (workspace : Workspace) (path : Text) : Except PreferenceFault (Table Text) := do
  let type := (Path.extension path).drop 1
  if !(yamlTypes ++ otherTypes).contains type then .error (.unsupported type)
  let text ← (workspace.read path).mapError .file
  if yamlTypes.contains type then parse text else return ∅

def exists? (workspace : Workspace) (path : Text) : Bool :=
  match workspace.stat path with
  | .ok entry => entry ≠ .directory
  | .error _ => false

/-- Reads the file that is named, or else the one in the home directory if there is one. -/
def load (workspace : Workspace) (named home : Option Text) :
    Except PreferenceFault (Table Text) :=
  match named.filter (· ≠ []), home.filter (· ≠ []) with
  | some path, _ => read workspace path
  | none, some home =>
      let path := Path.join home homeName
      if exists? workspace path then read workspace path else .ok ∅
  | none, none => .ok ∅

end PreferenceFile

end ScopeLint
