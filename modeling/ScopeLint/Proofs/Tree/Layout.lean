import ScopeLint.Proofs.Source.Glyphs
import ScopeLint.Proofs.Tree.Reader

/-!
How lexemes lie in the text they were read from: one after the other, with nothing but blanks and
comments between them, each over the characters that its kind stands for, and those of a group
between its brackets. Carriage returns belong to no character and are left out of all texts here,
also where one stands between the two characters of a comment mark.
-/

namespace ScopeLint.Tree

/-- Characters that leave no lexeme when `behind` follows them: blanks, line comments, which run
up to a line break or the end of the text, and block comments, which run through their first end
mark. -/
inductive Gap : (chars behind : List Char) → Prop
  | nil {behind : List Char} : Gap [] behind
  | blank {char : Char} {chars behind : List Char} (isBlank : Text.isBlank char = true)
      (inLine : char ≠ '\n') (rest : Gap chars behind) : Gap (char :: chars) behind
  | line {comment chars behind : List Char} (inLine : '\n' ∉ comment)
      (ends : ∀ next ∈ (chars ++ behind).head?, next = '\n') (rest : Gap chars behind) :
      Gap ('#' :: comment ++ chars) behind
  | block {comment chars behind : List Char} (unclosed : ¬ ['#', '>'] <:+: comment)
      (rest : Gap chars behind) : Gap ('<' :: '#' :: comment ++ '#' :: '>' :: chars) behind

/-- A span over a first character and the longest run of characters that continue it. -/
structure IsRun (source : Text) (span : Span) (starts continues : Char → Bool) : Prop where
  text : ∃ first rest, source.between span.start.byte span.stop.byte = first :: rest ∧
    starts first = true ∧ ∀ char ∈ rest, continues char = true
  ends : ∀ next ∈ (source.beyond span.stop.byte).head?, continues next = false

inductive Quotes : (opening closing : List Char) → Prop
  | plain {quote : Char} (quoted : IsQuote quote) : Quotes [quote] [quote]
  | here {quote : Char} (quoted : IsQuote quote) : Quotes ['@', quote] [quote, '@']

/-- How a lexeme stands to the stream behind it: no number touches a word, and a word or symbol is
joined just if it touches what is next. -/
structure Meets (tree : Tree) (rest : List Tree) : Prop where
  apart : ∀ next ∈ rest.head?, tree.kind = .word → next.kind = .number →
    tree.span.stop.byte < next.span.start.byte
  spaced : tree.spacing = .joined ↔ (tree.kind = .word ∨ tree.kind = .symbol) ∧
    ∃ next ∈ rest.head?, tree.span.stop.byte = next.span.start.byte

mutual

/-- A lexeme lies over what its kind stands for, and so do those that it holds. -/
def Covers (source : Text) : Tree → Prop
  | word span _ => IsRun source span startsWord continuesWord
  | number span => IsRun source span Text.isDigit Text.isDigit
  | symbol char span _ =>
      source.between span.start.byte span.stop.byte = [char] ∧ (char = '\n' ∨ IsLone char)
  | string span parts => ∃ first last opening closing, Quotes opening closing ∧
      source.between span.start.byte first = opening ∧
      source.between last span.stop.byte = closing ∧ Parts source first last parts
  | group delimiter span body => ∃ first last,
      source.between span.start.byte first = [delimiter.opening] ∧
      source.between last span.stop.byte = [delimiter.closing] ∧ Level source first last body

/-- The lexemes of a stream follow one another between two bytes, with gaps between them. -/
def Level (source : Text) (start stop : Int) : List Tree → Prop
  | [] => start ≤ stop ∧ Gap (source.between start stop) (source.beyond stop)
  | tree :: rest => start ≤ tree.span.start.byte ∧ tree.span.start.byte < tree.span.stop.byte ∧
      Gap (source.between start tree.span.start.byte) (source.beyond tree.span.start.byte) ∧
      Covers source tree ∧ Meets tree rest ∧ Level source tree.span.stop.byte stop rest

def Parts (source : Text) (start stop : Int) : List Tree → Prop
  | [] => start ≤ stop
  | tree :: rest => start ≤ tree.span.start.byte ∧ tree.span.start.byte < tree.span.stop.byte ∧
      Covers source tree ∧ Parts source tree.span.stop.byte stop rest

end

end ScopeLint.Tree
