import ScopeLint.Source.Glyph
import ScopeLint.Text.Blank
import ScopeLint.Text.Digit
import ScopeLint.Text.Letter
import ScopeLint.Tree.Basic

/-!
Reading a source text as lexemes. The first character decides what comes: a bracket opens a
group, a quote (or an at sign before one) a string, a letter a word. Groups and strings read
their contents by the same rules, so the two main functions call each other; each call either
consumes a character or stops, and the fuel that `read` gives out, one more than there are
characters, never runs dry.
-/

namespace ScopeLint

namespace Tree

def startsWord (char : Char) : Bool := char = '_' || Text.isLetter char

def continuesWord (char : Char) : Bool :=
  char = '_' || Text.isLetter char || Text.isDigit char

/-- What a character begins where code is expected. -/
inductive Lead where
  | opening (delimiter : Delimiter)
  | closing (delimiter : Delimiter)
  | lineEnd
  | comment
  | atSign
  | quote
  | word
  | number
  | blank
  | other
  deriving DecidableEq, Repr

def Lead.ofChar (char : Char) : Lead :=
  if char = '(' then .opening .paren
  else if char = '\x7b' then .opening .brace
  else if char = '[' then .opening .bracket
  else if char = ')' then .closing .paren
  else if char = '\x7d' then .closing .brace
  else if char = ']' then .closing .bracket
  else if char = '\n' then .lineEnd
  else if char = '#' then .comment
  else if char = '@' then .atSign
  else if char = '\'' || char = '"' then .quote
  else if startsWord char then .word
  else if Text.isDigit char then .number
  else if Text.isBlank char then .blank
  else .other

def nextIs (char : Char) (glyphs : List Glyph) : Bool :=
  (glyphs.head?.map Glyph.char) = some char

/-- A line comment ends in front of its line break. -/
def skipLine (glyphs : List Glyph) : List Glyph :=
  glyphs.dropWhile fun glyph => glyph.char ≠ '\n'

/-- What follows the end mark of a block comment, if it has one. -/
def skipBlock? : List Glyph → Option (List Glyph)
  | [] => none
  | glyph :: rest =>
      if glyph.char = '#' && nextIs '>' rest then some rest.tail else skipBlock? rest

def runSpan (first : Glyph) (run : List Glyph) : Span :=
  ⟨first.span.start, Glyph.stopOf first.span.stop run⟩

def readWord (first : Glyph) (glyphs : List Glyph) : Span × List Glyph :=
  let continues := fun glyph : Glyph => continuesWord glyph.char
  (runSpan first (glyphs.takeWhile continues), glyphs.dropWhile continues)

def readNumber (first : Glyph) (glyphs : List Glyph) : Span × List Glyph :=
  let continues := fun glyph : Glyph => Text.isDigit glyph.char
  (runSpan first (glyphs.takeWhile continues), glyphs.dropWhile continues)

def closeGroup (stop : Location) (delimiter : Delimiter) (first : Glyph) (body : List Tree) :
    List Glyph → Except SyntaxError (Tree × List Glyph)
  | [] => .error ⟨.wrongClosing delimiter none, stop⟩
  | last :: rest =>
      if last.char = delimiter.closing then
        .ok (.group delimiter ⟨first.span.start, last.span.stop⟩ body, rest)
      else .error ⟨.wrongClosing delimiter (some last.char), last.span.start⟩

/-- The form of a string: where it starts, the quote that encloses it, and whether it is a
here-string, which closes only at the start of a line. -/
structure Quotation where
  start : Location
  quote : Char
  here : Bool

/-- Only double quotes interpolate and know the backtick escape. -/
def Quotation.expands (form : Quotation) : Bool := form.quote = '"'

/-- The end of a string at a quote and what follows it, or none when the string goes on. A
plain string goes on after a doubled quote; a here-string ends at a quote in column one that an
at sign follows. -/
def Quotation.close? (form : Quotation) (glyph : Glyph) (rest : List Glyph) :
    Option (Location × List Glyph) :=
  if form.here then
    match rest with
    | [] => none
    | next :: behind =>
        if glyph.span.start.col = 1 && next.char = '@' then some (next.span.stop, behind) else none
  else if nextIs form.quote rest then none else some (glyph.span.stop, rest)

def Quotation.afterQuote (form : Quotation) (rest : List Glyph) : List Glyph :=
  if form.here then rest else rest.tail

mutual

/-- Reads lexemes up to the nearest closing bracket or the end of the text. -/
def readTrees (stop : Location) :
    (fuel : Nat) → List Glyph → Except SyntaxError (List Tree × List Glyph)
  | 0, rest => .ok ([], rest)
  | _ + 1, [] => .ok ([], [])
  | fuel + 1, glyph :: rest =>
      match Lead.ofChar glyph.char with
      | .closing _ => .ok ([], glyph :: rest)
      | .opening delimiter => do
          let (body, rest) ← readTrees stop fuel rest
          let (closed, rest) ← closeGroup stop delimiter glyph body rest
          let (trees, rest) ← readTrees stop fuel rest
          return (closed.link trees, rest)
      | .comment => readTrees stop fuel (skipLine rest)
      | .blank => readTrees stop fuel rest
      | .atSign =>
          match rest with
          | next :: behind =>
              if next.char = '\'' || next.char = '"' then do
                let (parts, last, rest) ←
                  readString stop fuel ⟨glyph.span.start, next.char, true⟩ behind
                let (trees, rest) ← readTrees stop fuel rest
                return (link (.string ⟨glyph.span.start, last⟩ parts) trees, rest)
              else do
                let (trees, rest) ← readTrees stop fuel (next :: behind)
                return (link (.symbol glyph.char glyph.span .alone) trees, rest)
          | [] => .ok (link (.symbol glyph.char glyph.span .alone) [], [])
      | .quote => do
          let (parts, last, rest) ← readString stop fuel ⟨glyph.span.start, glyph.char, false⟩ rest
          let (trees, rest) ← readTrees stop fuel rest
          return (link (.string ⟨glyph.span.start, last⟩ parts) trees, rest)
      | .word => do
          let (span, rest) := readWord glyph rest
          let (trees, rest) ← readTrees stop fuel rest
          return (link (.word span .alone) trees, rest)
      | .number => do
          let (span, rest) := readNumber glyph rest
          let (trees, rest) ← readTrees stop fuel rest
          return (link (.number span) trees, rest)
      | .lineEnd => do
          let (trees, rest) ← readTrees stop fuel rest
          return (link (.symbol glyph.char glyph.span .alone) trees, rest)
      | .other =>
          if glyph.char = '<' && nextIs '#' rest then
            match skipBlock? rest.tail with
            | none => .error ⟨.openComment, glyph.span.start⟩
            | some rest => readTrees stop fuel rest
          else do
            let (trees, rest) ← readTrees stop fuel rest
            return (link (.symbol glyph.char glyph.span .alone) trees, rest)

/-- Reads a string from behind its opening quote: what it interpolates, where it ends, and what
follows it. -/
def readString (stop : Location) :
    (fuel : Nat) → Quotation → List Glyph →
      Except SyntaxError (List Tree × Location × List Glyph)
  | 0, form, _ => .error ⟨.openString, form.start⟩
  | _ + 1, form, [] => .error ⟨.openString, form.start⟩
  | fuel + 1, form, glyph :: rest =>
      if glyph.char = '\x60' && form.expands then readString stop fuel form rest.tail
      else if glyph.char = form.quote then
        match form.close? glyph rest with
        | some (last, rest) => .ok ([], last, rest)
        | none => readString stop fuel form (form.afterQuote rest)
      else if glyph.char = '$' && form.expands then
        match rest with
        | [] => .error ⟨.openString, form.start⟩
        | next :: behind =>
            match Lead.ofChar next.char with
            | .opening .bracket => readString stop fuel form (next :: behind)
            | .opening delimiter => do
                let (body, rest) ← readTrees stop fuel behind
                let (closed, rest) ← closeGroup stop delimiter next body rest
                let (parts, last, rest) ← readString stop fuel form rest
                return (closed :: parts, last, rest)
            | .word => do
                let (span, rest) := readWord next behind
                let (parts, last, rest) ← readString stop fuel form rest
                return (.word span .alone :: parts, last, rest)
            | _ => readString stop fuel form (next :: behind)
      else readString stop fuel form rest

end

def read (source : Text) : Except SyntaxError (List Tree) :=
  let glyphs := source.glyphs
  match readTrees source.stop (glyphs.length + 1) glyphs with
  | .error error => .error error
  | .ok (trees, []) => .ok trees
  | .ok (_, last :: _) => .error ⟨.strayClosing last.char, last.span.start⟩

end Tree

end ScopeLint
