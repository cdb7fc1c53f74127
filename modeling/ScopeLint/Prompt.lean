import ScopeLint.Names
import ScopeLint.Terminal.Snippet
import ScopeLint.Token.Classify
import ScopeLint.Token.Dump

/-!
The interactive prompt: every line is shown with its tokens marked, or with what is wrong with
it. Command names are completed while typing.
-/

namespace ScopeLint

namespace Prompt

def errorSnippet (message : Text) (regions : List Region) (notes : List Text) : Snippet :=
  ⟨.error, "syntax-errors", message, regions, notes⟩

def renderSnippet (source : Text) (colored : Bool) (snippet : Snippet) : Text :=
  snippet.render colored fun _ => some source

def renderSyntaxError (source : Text) (colored : Bool) (error : SyntaxError) : Text :=
  let region := ⟨"<stdin>", [], error.place.line.toNat, error.place.col.toNat, 0, 0, []⟩
  renderSnippet source colored
    (errorSnippet ("Syntax error: " ++ error.fault.message) [region] [])

def renderPlainError (source : Text) (colored : Bool) (message : Text) : Text :=
  renderSnippet source colored (errorSnippet "Syntax error" [] [message])

def highlight (text : Text) (colored : Bool) : Text :=
  let source := text.dropMark
  match Token.read source with
  | .error error => renderSyntaxError source colored error
  | .ok tokens =>
      Token.dump source colored tokens ++ if source.endsWith "\n" then [] else "\n"

/-- The lines of typed input. Both halves of a line break end a line. -/
def inputLines (input : Text) : List Text :=
  (input.splitOn Text.lineFeed).flatMap fun line => line.splitOn Text.carriageReturn

/-- What a session prints for its input. Blank lines are passed over. -/
def session (input : Text) (colored : Bool) : Text :=
  ((inputLines input).filter fun line => line.trim ≠ []).flatMap fun line =>
    highlight (Text.ofChars line.chars) colored

def historyMode : Nat := 0o600

def separates (char : Char) : Bool :=
  [' ', '\t', '(', '\x7b', '|', ';'].elem char

/-- What stands between the last separator and the end of some characters. -/
def typed (before : List Char) : List Char :=
  (before.reverse.takeWhile fun char => !separates char).reverse

/-- What is missing from `start` to a name that begins like it in some letter case. -/
def completion? (start name : Text) : Option Text :=
  if start.length < name.length && Text.sameFold (name.take start.length) start then
    some (Text.ofChars (Text.chars (name.drop start.length)))
  else none

/-- The completions of what is typed before the cursor, and its length in characters. Without
any completion the length is zero. -/
def complete (names : NameSet) (before : List Char) : List Text × Nat :=
  let start := typed before
  let found := if start = [] then [] else names.names.filterMap (completion? (Text.ofChars start))
  (found, if found.isEmpty then 0 else start.length)

end Prompt

end ScopeLint
