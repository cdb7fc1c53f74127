import ScopeLint.Script.Item
import ScopeLint.Text.Blank

/-!
Import lines and test cases. Both are recognised by what a line starts with, whatever lexemes
the line is part of. An import line is a dot and blanks with the imported file behind them, up to
a comment; a test case is the word `It` with a quoted name behind it. Keywords and variable
names are compared ignoring case.
-/

namespace ScopeLint

structure Line where
  number : Nat
  offset : Nat
  text : Text
  deriving DecidableEq, Repr

namespace Line

/-- Numbers the pieces between line feeds, one carriage return before a line feed being part of
the line break. -/
def numbered (first offset : Nat) : List Text → List Line
  | [] => []
  | text :: rest =>
      ⟨first, offset, text.dropEnding [Text.carriageReturn]⟩
        :: numbered (first + 1) (offset + text.length + 1) rest

/-- The lines of a source text. A text that ends in a line feed has an empty last line. -/
def ofSource (source : Text) : List Line := numbered 1 0 (source.splitOn Text.lineFeed)

def locate (line : Line) (front : List Piece) : Location :=
  ⟨line.offset + (Text.ofPieces front).length, line.number, 1 + front.length⟩

def span (line : Line) : Span :=
  let pieces := line.text.pieces
  let blank := fun piece : Piece => Text.isBlank piece.char
  let front := pieces.takeWhile blank
  let back := (pieces.reverse.takeWhile blank).length
  ⟨line.locate front, line.locate (pieces.take (max front.length (pieces.length - back)))⟩

/-- What follows a word that the text starts with in some letter case. -/
def afterFolded? : (word : List Char) → List Piece → Option (List Piece)
  | [], rest => some rest
  | _ :: _, [] => none
  | char :: word, piece :: rest =>
      if Text.foldChar piece.char = char then afterFolded? word rest else none

def dropBlanks (text : Text) : Text := text.dropWhile Text.isLineBlank

def afterBlanks? : Text → Option Text
  | byte :: rest => if Text.isLineBlank byte then some (dropBlanks rest) else none
  | [] => none

/-- The imported file as an import line names it, without comment and trailing blanks. -/
def importText? (text : Text) : Option Text := do
  let rest ← Text.after? (dropBlanks text) "."
  let rest ← afterBlanks? rest
  return Text.trimEnd (rest.takeWhile (· ≠ Text.byte '#'))

/-- The variable that holds the directory of the running script, folded. -/
def rootVariable : List Char := "$psscriptroot".toList

/-- The path behind the root variable: blanks are skipped, backslashes count as slashes and
slashes around the path as nothing. -/
def relativePath (rest : List Piece) : Text :=
  let path := (Text.ofPieces rest).dropWhile fun byte =>
    byte = 0x20 || byte = 0x09 || byte = 0x0D || byte = 0x0A
  Text.trimBytes [Text.byte '/']
    (path.map fun byte => if byte = Text.byte '\\' then Text.byte '/' else byte)

def dropQuote (pieces : List Piece) : List Piece := (afterFolded? ['"'] pieces).getD pieces

/-- Whether a text names the tested file: two variables with a slash of either kind between
them, with or without quotes. -/
def isTested (pieces : List Piece) : Bool :=
  let rest := do
    let rest ← afterFolded? "$here".toList (dropQuote pieces)
    let rest ← (afterFolded? ['/'] rest).or (afterFolded? ['\\'] rest)
    afterFolded? "$sut".toList rest
  (rest.map dropQuote) = some []

def importee (text : Text) : Importee :=
  match afterFolded? rootVariable text.pieces with
  | some rest => .relative (relativePath rest)
  | none => if isTested text.pieces then .tested else .unrecognized text

def import? (line : Line) : Option Import :=
  (importText? line.text).map fun text => ⟨importee text, line.span⟩

def testName? (text : Text) : Option Text := do
  let rest ← afterFolded? "it".toList (dropBlanks text).pieces
  let rest ← afterBlanks? (Text.ofPieces rest)
  let rest ← Text.after? rest "\""
  let (name, _) ← rest.cut? (Text.byte '"')
  return name

def testcase? (line : Line) : Option Testcase :=
  (testName? line.text).map fun name => ⟨name, line.span⟩

end Line

end ScopeLint
