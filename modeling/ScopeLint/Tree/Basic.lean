import ScopeLint.Source.Fault
import ScopeLint.Text.Quoted

/-!
Lexemes of a script, nested by brackets. A group holds the lexemes between its brackets, and a
string holds the variable names and bracketed parts that it interpolates; everything else of a
string is opaque. Comments and blanks leave no trace but the spacing of their neighbours.
-/

namespace ScopeLint

inductive Spacing where
  | alone
  | joined
  deriving DecidableEq, Repr, Inhabited

def Spacing.text : Spacing → Text
  | alone => "alone"
  | joined => "joined"

inductive Tree where
  | word (span : Span) (spacing : Spacing)
  | symbol (char : Char) (span : Span) (spacing : Spacing)
  | number (span : Span)
  | string (span : Span) (parts : List Tree)
  | group (delimiter : Delimiter) (span : Span) (body : List Tree)
  deriving Repr

namespace Tree

def kind : Tree → TreeKind
  | word .. => .word
  | symbol .. => .symbol
  | number .. => .number
  | string .. => .string
  | group .. => .group

def span : Tree → Span
  | word span _ => span
  | symbol _ span _ => span
  | number span => span
  | string span _ => span
  | group _ span _ => span

/-- The spacing of a word or symbol; the others have none and count as standing alone. -/
def spacing : Tree → Spacing
  | word _ spacing => spacing
  | symbol _ _ spacing => spacing
  | _ => .alone

def isWord : Tree → Bool
  | word .. => true
  | _ => false

def isSymbol (wanted : Char) : Tree → Bool
  | symbol char .. => char = wanted
  | _ => false

def withSpacing (spacing : Spacing) : Tree → Tree
  | word span _ => word span spacing
  | symbol char span _ => symbol char span spacing
  | tree => tree

/-- A lexeme put in front of a stream, with its spacing read off the spans. -/
def link (tree : Tree) : List Tree → List Tree
  | [] => [tree.withSpacing .alone]
  | next :: rest =>
      tree.withSpacing (if tree.span.stop = next.span.start then .joined else .alone)
        :: next :: rest

mutual

def describe : Tree → Text
  | symbol char _ spacing => "symbol(" ++ Text.quoteChar char ++ ", " ++ spacing.text ++ ")"
  | word span spacing => "word(" ++ span.text ++ ", " ++ spacing.text ++ ")"
  | group delimiter _ body => "group" ++ delimiter.text ++ "[" ++ Text.join " " (describeAll body) ++ "]"
  | string _ parts => "string[" ++ Text.join " " (describeAll parts) ++ "]"
  | number span => "number(" ++ span.text ++ ")"

def describeAll : List Tree → List Text
  | [] => []
  | tree :: rest => describe tree :: describeAll rest

end

end Tree

end ScopeLint
