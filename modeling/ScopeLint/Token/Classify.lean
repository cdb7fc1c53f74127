import ScopeLint.Token.Basic
import ScopeLint.Tree.Reader

/-!
Classifying lexemes. The reading of a word depends on what stands before it in its stream: after
a separator a command is expected, after a dot a member name, after a command its arguments.
That expectation is the mode. Lexemes that belong to one name, such as the words and dashes of
a command, are merged when the first of them is met and passed over afterwards.
-/

namespace ScopeLint

inductive Mode where
  /-- A command or keyword. -/
  | function
  /-- A member, key or class name. -/
  | field
  /-- Bare text. -/
  | argument
  /-- A type or attribute name between brackets. -/
  | typeName
  deriving DecidableEq, Repr

def Mode.text : Mode → Text
  | function => "function"
  | field => "field"
  | argument => "argument"
  | typeName => "annotation"

namespace Token

/-- A stream to classify: the mode that separators return to, and the brackets around it. A
line break separates statements only between braces. -/
structure Stream where
  start : Mode
  delimiter : Delimiter

def Stream.file : Stream := ⟨.function, .brace⟩

structure Progress where
  mode : Mode
  /-- A class keyword has been met and no group since. -/
  afterClass : Bool
  /-- An at sign that belongs to the group that comes next. -/
  atSign : Option Span

def Progress.start (mode : Mode) : Progress := ⟨mode, false, none⟩

/-- Extends a command name over the joined words, dashes, pluses and dots behind it, and counts
them. -/
def commandRun (span : Span) (spacing : Spacing) : List Tree → Span × Nat
  | [] => (span, 0)
  | tree :: rest =>
      if spacing = .joined &&
          (tree.isWord || tree.isSymbol '-' || tree.isSymbol '+' || tree.isSymbol '.') then
        let (whole, count) := commandRun (span.through tree.span) tree.spacing rest
        (whole, count + 1)
      else (span, 0)

def continuesArgument : Tree → Bool
  | .word .. => true
  | .symbol char .. => char ≠ '\n' && char ≠ '\x60'
  | _ => false

/-- Extends bare argument text over the joined words and symbols behind it, and counts them. -/
def argumentRun (span : Span) (spacing : Spacing) : List Tree → Span × Nat
  | [] => (span, 0)
  | tree :: rest =>
      if spacing = .joined && continuesArgument tree then
        let (whole, count) := argumentRun (span.through tree.span) tree.spacing rest
        (whole, count + 1)
      else (span, 0)

/-- A variable name with its scopes, such as `Using:Var`: one variable for each word, and the
number of lexemes read. The sign in front belongs to the first. -/
def variableRun : (sign : Option Span) → List Tree → List Token × Nat
  | sign, .word name spacing :: rest =>
      let token := Token.variable ((sign.map fun sign => sign.through name).getD name) name
      match spacing, rest with
      | .joined, .symbol ':' colon .joined :: rest =>
          let (tokens, count) := variableRun none rest
          (token :: .symbol ':' colon :: tokens, count + 2)
      | _, _ => ([token], 1)
  | _, _ => ([], 0)

/-- A command position holds a keyword or a command name. -/
def ofCommand (source : Text) (span : Span) : Token :=
  let name := span.slice source
  if name = Keyword.function.text then .keyword .function span
  else if name = Keyword.classWord.text then .keyword .classWord span
  else if name = Keyword.return.text then .keyword .return span
  else .cmdlet span

def Progress.afterCommand (progress : Progress) : Token → Progress
  | .keyword .classWord _ => { progress with mode := .field, afterClass := true }
  | .cmdlet _ => { progress with mode := .argument }
  | _ => progress

/-- The effect of a symbol: the tokens it gives, the mode behind it, and how many of the
lexemes behind it it takes along. -/
structure Effect where
  tokens : List Token
  mode : Mode
  skip : Nat

def nextIsSymbol (char : Char) (rest : List Tree) : Bool :=
  (rest.head?.map (Tree.isSymbol char)) = some true

def nextWord? : List Tree → Option Span
  | .word span _ :: _ => some span
  | _ => none

def ofSymbol (stream : Stream) (mode : Mode) (char : Char) (span : Span) (spacing : Spacing)
    (rest : List Tree) : Except SyntaxError Effect :=
  let plain := Token.symbol char span
  if char = '\x60' && spacing = .joined then
    if nextIsSymbol '\n' rest then .ok ⟨[], mode, 1⟩
    else .error ⟨.unknownEscape, span.start⟩
  else if char = '\n' && stream.delimiter = .brace then
    .ok ⟨[.symbol ';' span], stream.start, 0⟩
  else if char = '|' || char = '+' then
    .ok ⟨[plain], if char = '|' then .function else mode, if nextIsSymbol '\n' rest then 1 else 0⟩
  else if char = '$' && spacing = .joined && (nextWord? rest).isSome then
    let (tokens, count) := variableRun (some span) rest
    .ok ⟨tokens, .argument, count⟩
  else match char, spacing, rest with
    | '-', .joined, .word name _ :: _ => .ok ⟨[.flag (span.through name) name], .argument, 1⟩
    | ':', .joined, .symbol ':' second _ :: _ => .ok ⟨[.doubleColon (span.through second)], .field, 1⟩
    | '=', _, _ => .ok ⟨[plain], .function, 0⟩
    | '.', _, _ => .ok ⟨[plain], .field, 0⟩
    | ';', _, _ => .ok ⟨[plain], stream.start, 0⟩
    | ',', _, _ => .ok ⟨[plain], if stream.start = .typeName then stream.start else mode, 0⟩
    | _, _, _ => .ok ⟨[plain], mode, 0⟩

/-- Whether an at sign belongs to the group directly behind it. -/
def marksGroup (char : Char) (span : Span) : List Tree → Bool
  | .group _ next _ :: _ => char = '@' && span.stop = next.start
  | _ => false

def innerMode (stream : Stream) (progress : Progress) (delimiter : Delimiter) : Mode :=
  if progress.atSign.isSome then
    if delimiter = .brace then .field else .function
  else if progress.afterClass && delimiter = .brace then .field
  else if stream.start = .typeName || delimiter = .bracket then .typeName
  else .function

mutual

/-- Classifies what is inside a lexeme: the interpolations of a string, or the body of a group
as the stream it is given. -/
def classifyInside (source : Text) : Stream → Tree → Except SyntaxError (List Token)
  | _, .string _ parts => interpolate source parts
  | stream, .group _ _ body => classify source stream (.start stream.start) 0 body
  | _, _ => .ok []

/-- Classifies the lexemes of a stream, of which the first `skip` have been taken along by what
stands before them. -/
def classify (source : Text) :
    Stream → Progress → (skip : Nat) → List Tree → Except SyntaxError (List Token)
  | _, _, _, [] => .ok []
  | stream, progress, skip + 1, _ :: rest => classify source stream progress skip rest
  | stream, progress, 0, tree :: rest =>
      match tree with
      | .word span spacing =>
          match progress.mode with
          | .field | .typeName => do
              let tokens ← classify source stream { progress with mode := .argument } 0 rest
              return .field span :: tokens
          | .function => do
              let (whole, count) := commandRun span spacing rest
              let token := ofCommand source whole
              let tokens ← classify source stream (progress.afterCommand token) count rest
              return token :: tokens
          | .argument =>
              if span.slice source = Keyword.in.text then do
                let tokens ← classify source stream { progress with mode := .function } 0 rest
                return .keyword .in span :: tokens
              else do
                let (whole, count) := argumentRun span spacing rest
                let tokens ← classify source stream progress count rest
                return .word whole :: tokens
      | .symbol char span spacing =>
          if marksGroup char span rest then
            classify source stream { progress with atSign := some span } 0 rest
          else do
            let effect ← ofSymbol stream progress.mode char span spacing rest
            let tokens ←
              classify source stream { progress with mode := effect.mode } effect.skip rest
            return effect.tokens ++ tokens
      | .number span => do
          let tokens ← classify source stream { progress with mode := .argument } 0 rest
          return .number span :: tokens
      | .string span _ => do
          let parts ← classifyInside source stream tree
          let tokens ← classify source stream { progress with mode := .argument } 0 rest
          return .string span parts :: tokens
      | .group delimiter span _ => do
          let mode := innerMode stream progress delimiter
          let body ← classifyInside source ⟨mode, delimiter⟩ tree
          let whole := (progress.atSign.map fun sign => sign.through span).getD span
          let sign := progress.atSign.map fun _ => GroupSign.atSign
          let tokens ← classify source stream ⟨progress.mode, false, none⟩ 0 rest
          return .group delimiter sign whole body :: tokens

/-- Classifies what a string interpolates: a variable, a variable between braces, or an
expression between parentheses. -/
def interpolate (source : Text) : List Tree → Except SyntaxError (List Token)
  | [] => .ok []
  | tree :: rest =>
      match tree with
      | .word span _ => do
          let tokens ← interpolate source rest
          return .variable span span :: tokens
      | .group .brace span body =>
          let (names, count) := variableRun none body
          match body.drop count with
          | extra :: _ => .error ⟨.notAVariable, extra.span.start⟩
          | [] => do
              let tokens ← interpolate source rest
              return .group .paren none span names :: tokens
      | .group .paren span _ => do
          let body ← classifyInside source ⟨.function, .paren⟩ tree
          let tokens ← interpolate source rest
          return .group .paren (some .dollar) span body :: tokens
      | _ => .error ⟨.strayInString tree.kind, tree.span.start⟩

end

def ofTrees (source : Text) (trees : List Tree) : Except SyntaxError (List Token) :=
  classify source .file (.start .function) 0 trees

def read (source : Text) : Except SyntaxError (List Token) := do
  ofTrees source (← Tree.read source)

end Token

end ScopeLint
