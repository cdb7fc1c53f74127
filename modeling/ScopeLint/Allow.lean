import ScopeLint.Source.Location
import ScopeLint.Text.Case

/-!
Allow comments. A finding is suppressed by a comment on its line that holds the word "allow", in
any letter case, and names what is allowed.
-/

namespace ScopeLint

/-- The line of a source text around a byte offset, without its line break. An offset outside
the text is on no line. -/
def lineAt (source : Text) (offset : Int) : Text :=
  if offset < 0 || offset > source.length then []
  else
    let before := source.take offset.toNat
    let behind := source.drop offset.toNat
    let line : Text := (before.reverse.takeWhile (· ≠ Text.lineFeed)).reverse
      ++ behind.takeWhile (· ≠ Text.lineFeed)
    line.dropEnding [Text.carriageReturn]

def allows (line what : Text) : Bool :=
  match line.cut? (Text.byte '#') with
  | some (_, comment) => comment.lower.contains "allow" && comment.contains what
  | none => false

end ScopeLint
