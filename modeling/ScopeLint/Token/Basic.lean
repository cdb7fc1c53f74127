import ScopeLint.Tree.Basic

/-!
Classified tokens: what each lexeme means where it stands. Variables, flags, command names and
fields have a name, which is a part of the source; the name of a variable or flag leaves out the
sign in front of it.
-/

namespace ScopeLint

/-- The words of the language that change how the next word is read. -/
inductive Keyword where
  | function
  | classWord
  | return
  | in
  deriving DecidableEq, Repr

def Keyword.text : Keyword → Text
  | .function => "function"
  | .classWord => "class"
  | .return => "return"
  | .in => "in"

/-- The sign that belongs to a group: an at sign before a literal table or list, or the dollar
of an interpolated expression. -/
inductive GroupSign where
  | atSign
  | dollar
  deriving DecidableEq, Repr

def GroupSign.char : GroupSign → Char
  | atSign => '@'
  | dollar => '$'

inductive TokenKind where
  | variable
  | flag
  | cmdlet
  | field
  | keyword (which : Keyword)
  | word
  | number
  | string
  | group
  | doubleColon
  | symbol
  deriving DecidableEq, Repr

def TokenKind.text : TokenKind → Text
  | .variable => "variable"
  | flag => "flag"
  | cmdlet => "cmdlet"
  | field => "field"
  | keyword which => which.text
  | word => "word"
  | number => "number"
  | string => "string"
  | group => "group"
  | doubleColon => "::"
  | symbol => "symbol"

def TokenKind.all : List TokenKind :=
  [.variable, .flag, .cmdlet, .field, .keyword .function, .keyword .classWord, .keyword .return,
    .keyword .in, .word, .number, .string, .group, .doubleColon, .symbol]

inductive Token where
  /-- A variable; `name` leaves out the dollar. -/
  | variable (span name : Span)
  /-- A parameter name; `name` leaves out the dash. -/
  | flag (span name : Span)
  /-- A command name. -/
  | cmdlet (span : Span)
  /-- A member name, a key of a literal table or a type name. -/
  | field (span : Span)
  | keyword (which : Keyword) (span : Span)
  /-- Bare argument text. -/
  | word (span : Span)
  | number (span : Span)
  | string (span : Span) (parts : List Token)
  | group (delimiter : Delimiter) (sign : Option GroupSign) (span : Span) (body : List Token)
  | doubleColon (span : Span)
  | symbol (char : Char) (span : Span)
  deriving Repr

namespace Token

def kind : Token → TokenKind
  | .variable .. => .variable
  | flag .. => .flag
  | cmdlet .. => .cmdlet
  | field .. => .field
  | keyword which _ => .keyword which
  | word .. => .word
  | number .. => .number
  | string .. => .string
  | group .. => .group
  | doubleColon .. => .doubleColon
  | symbol .. => .symbol

def span : Token → Span
  | .variable span _ => span
  | flag span _ => span
  | cmdlet span => span
  | field span => span
  | keyword _ span => span
  | word span => span
  | number span => span
  | string span _ => span
  | group _ _ span _ => span
  | doubleColon span => span
  | symbol _ span => span

def name? : Token → Option Span
  | .variable _ name => some name
  | flag _ name => some name
  | cmdlet span => some span
  | field span => some span
  | _ => none

/-- What a string interpolates or a group encloses. -/
def children : Token → List Token
  | string _ parts => parts
  | group _ _ _ body => body
  | _ => []

mutual

def describe : Token → Text
  | symbol char _ => "symbol(" ++ Text.quoteChar char ++ ")"
  | group delimiter sign _ body =>
      "group" ++ Text.ofChars (sign.map GroupSign.char).toList ++ delimiter.text ++ "["
        ++ Text.join " " (describeAll body) ++ "]"
  | string _ parts => "string[" ++ Text.join " " (describeAll parts) ++ "]"
  | .variable span _ => "variable(" ++ span.text ++ ")"
  | flag span _ => "flag(" ++ span.text ++ ")"
  | cmdlet span => "cmdlet(" ++ span.text ++ ")"
  | field span => "field(" ++ span.text ++ ")"
  | keyword which span => which.text ++ "(" ++ span.text ++ ")"
  | word span => "word(" ++ span.text ++ ")"
  | number span => "number(" ++ span.text ++ ")"
  | doubleColon span => "::(" ++ span.text ++ ")"

def describeAll : List Token → List Text
  | [] => []
  | token :: rest => describe token :: describeAll rest

end

mutual

/-- The streams inside a token, each before those inside it. Empty ones are left out. -/
def innerStreams : Token → List (List Token)
  | string _ parts => if parts.isEmpty then [] else parts :: innerStreamsOf parts
  | group _ _ _ body => if body.isEmpty then [] else body :: innerStreamsOf body
  | _ => []

def innerStreamsOf : List Token → List (List Token)
  | [] => []
  | token :: rest => innerStreams token ++ innerStreamsOf rest

end

/-- A stream and, depth first, every stream inside its strings and groups. -/
def streams (tokens : List Token) : List (List Token) := tokens :: innerStreamsOf tokens

end Token

end ScopeLint
