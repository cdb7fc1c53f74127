import ScopeLint.Terminal.Color
import ScopeLint.Token.Basic

/-!
A dump of a source text with its tokens marked. The text is copied once from front to back;
names and keywords are put between brackets, or coloured, and a line break that ends a
statement is shown as a semicolon before the break.
-/

namespace ScopeLint

namespace Token

/-- A stretch of the source that is shown in another way. -/
structure Mark where
  start : Nat
  stop : Nat
  shown : Text
  style : Style

/-- The style of names and keywords; other tokens are copied unmarked. -/
def style? : Token → Option Style
  | .variable .. => some .yellow
  | flag .. => some .cyan
  | cmdlet .. => some .green
  | field .. => some .red
  | keyword .. => some .blue
  | _ => none

def markAt (span : Span) (shown : Text) (style : Style) : Mark :=
  ⟨span.start.byte.toNat, span.stop.byte.toNat, shown, style⟩

/-- The mark of a token by itself, without what is inside it. -/
def ownMark? (source : Text) (token : Token) : Option Mark :=
  match token with
  | symbol ';' span =>
      if (span.slice source).endsWith "\n" then some (markAt span ";\n" .red) else none
  | _ =>
      let place := token.name?.getD token.span
      token.style?.map fun style => markAt place (place.slice source) style

mutual

def marks (source : Text) : Token → List Mark
  | string _ parts => marksOf source parts
  | group _ _ _ body => marksOf source body
  | token => (ownMark? source token).toList

def marksOf (source : Text) : List Token → List Mark
  | [] => []
  | token :: rest => marks source token ++ marksOf source rest

end

def Mark.text (colored : Bool) (mark : Mark) : Text :=
  if colored then mark.style.escape ++ mark.shown ++ Style.reset.escape
  else "[" ++ mark.shown ++ "]"

/-- Copies the source from offset `done` on, with the marks put in. A mark that starts inside
what has been written already is left out. -/
def writeMarks (source : Text) (colored : Bool) : (done : Nat) → List Mark → Text
  | done, [] => source.drop done
  | done, mark :: rest =>
      if mark.start < done then writeMarks source colored done rest
      else source.slice done mark.start ++ mark.text colored
        ++ writeMarks source colored mark.stop rest

def dump (source : Text) (colored : Bool) (tokens : List Token) : Text :=
  writeMarks source colored 0 (marksOf source tokens)

end Token

end ScopeLint
