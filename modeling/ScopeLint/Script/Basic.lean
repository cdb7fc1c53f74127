import ScopeLint.Script.Line
import ScopeLint.Token.Classify

/-!
The contents of one script as far as analysis needs them. Definitions and usages come from the
tokens, stream by stream; imports and test cases come from the lines.
-/

namespace ScopeLint

structure Script where
  imports : List Import
  definitions : List Definition
  usages : List Usage
  testcases : List Testcase
  deriving DecidableEq, Repr

namespace Script

/-- Words that are part of the language and never name a command. -/
def keywords : List Text :=
  ["begin", "break", "catch", "continue", "data", "do", "dynamicparam", "else", "elseif", "end",
    "exit", "filter", "finally", "for", "foreach", "function", "if", "in", "param", "process",
    "return", "switch", "throw", "trap", "try", "until", "while"].map Text.ofString

def isKeyword (name : Text) : Bool := keywords.contains name.lower

/-- Programs of the operating system are not looked up. -/
def isProgram (name : Text) : Bool := name.lower.endsWith ".exe"

inductive Finding where
  | definition (found : Definition)
  | usage (found : Usage)
  deriving DecidableEq, Repr

/-- The name in brackets of a group that holds nothing else, which is how types are written. -/
def typeReference? : Token → Option Span
  | .group .bracket _ _ [.field span] => some span
  | _ => none

/-- What a token means behind a token of kind `previous`. -/
def finding? (source : Text) (previous : TokenKind) (token : Token) : Option Finding :=
  match token with
  | .cmdlet span =>
      let name := span.slice source
      if previous = .keyword .function then some (.definition ⟨⟨name, .function⟩, span⟩)
      else if isKeyword name || isProgram name then none
      else some (.usage ⟨⟨name, .function⟩, span⟩)
  | .field span =>
      if previous = .keyword .classWord then some (.definition ⟨⟨span.slice source, .classType⟩, span⟩)
      else none
  | token => (typeReference? token).map fun span => .usage ⟨⟨span.slice source, .classType⟩, span⟩

def findings (source : Text) : (previous : TokenKind) → List Token → List Finding
  | _, [] => []
  | previous, token :: rest =>
      (finding? source previous token).toList ++ findings source token.kind rest

def Finding.definition? : Finding → Option Definition
  | definition found => some found
  | usage _ => none

def Finding.usage? : Finding → Option Usage
  | definition _ => none
  | usage found => some found

def ofTokens (source : Text) (tokens : List Token) : Script :=
  let found := (Token.streams tokens).flatMap (findings source .symbol)
  let lines := Line.ofSource source
  { imports := lines.filterMap Line.import?
    definitions := found.filterMap Finding.definition?
    usages := found.filterMap Finding.usage?
    testcases := lines.filterMap Line.testcase? }

/-- Reads a script. All places refer to the text without its byte order mark. -/
def read (text : Text) : Except SyntaxError Script := do
  let source := text.dropMark
  return ofTokens source (← Token.read source)

def extension : Text := ".ps1"

def testedName (name : Text) : Text := name.replaceFirst ".Tests." "."

end Script

end ScopeLint
