import ScopeLint.Source.Location

/-!
What can be wrong with a script's text. Reading stops at the first fault and yields nothing
else, so a fault carries all that a report needs: its cause and its place.
-/

namespace ScopeLint

inductive Delimiter where
  | paren
  | brace
  | bracket
  deriving DecidableEq, Repr, Inhabited

namespace Delimiter

def opening : Delimiter → Char
  | paren => '('
  | brace => '\x7b'
  | bracket => '['

def closing : Delimiter → Char
  | paren => ')'
  | brace => '\x7d'
  | bracket => ']'

def text (delimiter : Delimiter) : Text :=
  Text.ofChars [delimiter.opening, delimiter.closing]

end Delimiter

inductive TreeKind where
  | word
  | symbol
  | number
  | string
  | group
  deriving DecidableEq, Repr

def TreeKind.text : TreeKind → Text
  | word => "word"
  | symbol => "symbol"
  | number => "number"
  | string => "string"
  | group => "group"

inductive Fault where
  /-- A closing bracket that nothing opened. -/
  | strayClosing (found : Char)
  /-- Another closing bracket, or the end of the text, where a group must close. -/
  | wrongClosing (wanted : Delimiter) (found : Option Char)
  | openComment
  | openString
  /-- A backtick that joins the next lexeme without being followed by a line break. -/
  | unknownEscape
  /-- Something other than a variable name between the braces of an interpolation. -/
  | notAVariable
  /-- A lexeme that no string can hold. -/
  | strayInString (kind : TreeKind)
  deriving DecidableEq, Repr

def Fault.message : Fault → Text
  | strayClosing found => "Unexpected closing \x60" ++ Text.ofChar found ++ "\x60"
  | wrongClosing wanted (some found) =>
      "Expected \x60" ++ Text.ofChar wanted.closing ++ "\x60, but found \x60"
        ++ Text.ofChar found ++ "\x60"
  | wrongClosing wanted none =>
      "Expected \x60" ++ Text.ofChar wanted.closing ++ "\x60, but found end of file"
  | openComment => "Unclosed block comment"
  | openString => "Unclosed string"
  | unknownEscape => "Unknown escape"
  | notAVariable => "Variable name expected in \x7b\x7d-block"
  | strayInString kind => "Unexpected " ++ kind.text ++ " in string"

structure SyntaxError where
  fault : Fault
  place : Location
  deriving DecidableEq, Repr

def SyntaxError.message (error : SyntaxError) : Text := error.place.annotate error.fault.message

end ScopeLint
