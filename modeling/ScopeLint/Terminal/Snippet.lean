import ScopeLint.Terminal.Color
import ScopeLint.Text.Utf8

/-!
Annotated snippets of source. A finding is shown with the line it is about, a run of carets under
the place, and its notes. Tabs are shown as four spaces, both in the line and under it.
-/

namespace ScopeLint

inductive Severity where
  | error
  | warning
  | note
  /-- Shown without colour. -/
  | unknown
  deriving DecidableEq, Repr

def Severity.text : Severity → Text
  | error => "error"
  | warning => "warning"
  | note => "note"
  | unknown => "unknown"

def Severity.style? : Severity → Option Style
  | error => some .boldRed
  | warning => some .boldYellow
  | note => some .boldCyan
  | unknown => none

/-- A place to show. Lines and columns count from one; zero means that a number is not given. -/
structure Region where
  /-- The file as it is shown. -/
  file : Text
  /-- The path to read the source from, the shown name if empty. -/
  path : Text
  line : Nat
  col : Nat
  endLine : Nat
  /-- The column behind the place. -/
  endCol : Nat
  /-- Text behind the carets. -/
  label : Text
  deriving DecidableEq, Repr

structure Snippet where
  severity : Severity
  /-- The check that found it. -/
  code : Text
  message : Text
  regions : List Region
  notes : List Text
  deriving DecidableEq, Repr

namespace Snippet

/-- A line of this many bytes ends the source as far as snippets see it. -/
def lineLimit : Nat := 65536

def sourceLine (source : Text) (number : Nat) : Text :=
  if number = 0 then []
  else
    let lines := (source.dropMark.splitOn Text.lineFeed).takeWhile fun line =>
      line.length < lineLimit
    (lines.getD (number - 1) []).dropEnding [Text.carriageReturn]

def charWidth (char : Char) : Nat := if char = '\t' then 4 else 1

def displayWidth (chars : List Char) : Nat :=
  chars.foldr (fun char width => charWidth char + width) 0

def expandTabs (line : Text) : Text :=
  line.flatMap fun byte => if byte = 0x09 then Text.spaces 4 else [byte]

def endsWord (char : Char) : Bool :=
  [' ', '\t', '(', ')', '[', ']', '\x7b', '\x7d'].elem char

def wordEnd (chars : List Char) (col : Nat) : Nat :=
  if chars.length < col then col
  else col + ((chars.drop (col - 1)).takeWhile fun char => !endsWord char).length

/-- The columns that are underlined: where the carets start and the column behind them. -/
def underline (chars : List Char) (region : Region) : Nat × Nat :=
  let col := max region.col 1
  let stop :=
    if region.line < region.endLine then chars.length + 1
    else if region.endCol = 0 then wordEnd chars col
    else region.endCol
  (col, if stop ≤ col then col + 1 else stop)

def caretIndent (chars : List Char) (col : Nat) : Nat :=
  if col - 1 ≤ chars.length then displayWidth (chars.take (col - 1)) else 0

def place (region : Region) : Text :=
  if region.line = 0 then region.file
  else if region.col = 0 then region.file ++ ":" ++ Text.ofNat region.line
  else region.file ++ ":" ++ Text.ofNat region.line ++ ":" ++ Text.ofNat region.col

def gutter (colored : Bool) (content : Text) : Text :=
  " " ++ Style.boldBlue.when colored ++ content ++ " |" ++ Style.reset.when colored

def renderRegion (colored : Bool) (source : Text → Option Text) (region : Region) : Text :=
  let style := fun style : Style => style.when colored
  let header := "  " ++ style .boldBlue ++ "-->" ++ style .reset ++ " " ++ place region ++ "\n"
  let path := if region.path = [] then region.file else region.path
  let line : Text := if region.line = 0 || path = [] then []
    else ((source path).map fun text => sourceLine text region.line).getD []
  if line = [] then header ++ "   " ++ style .boldBlue ++ "|" ++ style .reset ++ "\n"
  else
    let number := Text.ofNat region.line
    let blank := gutter colored (Text.spaces number.length)
    let chars := line.chars
    let (col, stop) := underline chars region
    let carets : Text := List.replicate (stop - col) (Text.byte '^')
    let label : Text := if region.label = [] then []
      else " " ++ style .boldRed ++ region.label ++ style .reset
    header ++ blank ++ "\n"
      ++ gutter colored number ++ "  " ++ expandTabs line ++ "\n"
      ++ blank ++ "  " ++ Text.spaces (caretIndent chars col) ++ style .boldRed ++ carets
      ++ style .reset ++ label ++ "\n"
      ++ blank ++ "\n"

def renderNote (colored : Bool) (note : Text) : Text :=
  "   " ++ Style.boldCyan.when colored ++ "=" ++ Style.reset.when colored ++ " note: " ++ note
    ++ "\n"

def render (colored : Bool) (source : Text → Option Text) (snippet : Snippet) : Text :=
  let style : Text := (snippet.severity.style?.map fun style => style.when colored).getD []
  let code : Text := if snippet.code = [] then [] else "[" ++ snippet.code ++ "]"
  style ++ snippet.severity.text ++ code ++ Style.reset.when colored ++ ": "
    ++ Style.bold.when colored ++ snippet.message ++ Style.reset.when colored ++ "\n"
    ++ snippet.regions.flatMap (renderRegion colored source)
    ++ snippet.notes.flatMap (renderNote colored)

def renderAll (colored : Bool) (source : Text → Option Text) (snippets : List Snippet) : Text :=
  Text.join "\n" (snippets.map (render colored source))

end Snippet

end ScopeLint
