import ScopeLint.Proofs.Token.Respacing
import ScopeLint.Proofs.Tree.Blanking

/-!
Comments count as blanks. A text is read as the same tokens once its comments are spaces, but for
where these tokens are; so no comment joins or splits its neighbours or makes them look joined.
-/

namespace ScopeLint

namespace Token

/-- A token without its place: its kind, its own text where it has one, and what is inside it. -/
inductive Outline where
  | variable (name : Text)
  | flag (name : Text)
  | cmdlet (name : Text)
  | field (name : Text)
  | keyword (which : Keyword)
  | word (text : Text)
  | number (text : Text)
  | string (parts : List Outline)
  | group (delimiter : Delimiter) (sign : Option GroupSign) (body : List Outline)
  | doubleColon
  | symbol (char : Char)
  deriving Repr

mutual

def outline (source : Text) : Token → Outline
  | .variable _ name => .variable (name.slice source)
  | flag _ name => .flag (name.slice source)
  | cmdlet span => .cmdlet (span.slice source)
  | field span => .field (span.slice source)
  | keyword which _ => .keyword which
  | word span => .word (span.slice source)
  | number span => .number (span.slice source)
  | string _ parts => .string (outlines source parts)
  | group delimiter sign _ body => .group delimiter sign (outlines source body)
  | doubleColon _ => .doubleColon
  | symbol char _ => .symbol char

def outlines (source : Text) : List Token → List Outline
  | [] => []
  | token :: rest => outline source token :: outlines source rest

end

def readOutlines (source : Text) : Except Fault (List Outline) :=
  match read source with
  | .error error => .error error.fault
  | .ok tokens => .ok (outlines source tokens)

variable {pair : Respacing}

mutual

theorem Alike.outline_eq {token twin : Token} (alike : Alike pair token twin) :
    outline pair.other twin = outline pair.source token := by
  match alike with
  | .variable _ reads => exact congrArg Outline.variable reads.text.slice_eq
  | .flag _ reads => exact congrArg Outline.flag reads.text.slice_eq
  | .cmdlet reads => exact congrArg Outline.cmdlet reads.text.slice_eq
  | .field reads => exact congrArg Outline.field reads.text.slice_eq
  | .keyword _ => rfl
  | .word reads => exact congrArg Outline.word reads.text.slice_eq
  | .number reads => exact congrArg Outline.number reads.text.slice_eq
  | .string _ inside => exact congrArg Outline.string inside.outlines_eq
  | .group _ inside => exact congrArg (Outline.group _ _) inside.outlines_eq
  | .doubleColon _ => rfl
  | .symbol _ => rfl

theorem AllAlike.outlines_eq {tokens twins : List Token} (alike : AllAlike pair tokens twins) :
    outlines pair.other twins = outlines pair.source tokens := by
  cases alike with
  | nil => rfl
  | cons alike more =>
      rw [outlines, outlines, alike.outline_eq, more.outlines_eq]

end

/-- Comments are equivalent to whitespace: with spaces in their place, how many ever for each of
them, a text is read as the same tokens or refused for the same fault. -/
theorem readOutlines_blankComments (extra : Location → Nat) (source : Text) :
    readOutlines (source.blankComments extra) = readOutlines source := by
  have agree := read_agree (source.respaced_blankComments extra)
  unfold readOutlines
  obtain ⟨error, twin, here, there, fault, -⟩ | ⟨tokens, twins, here, there, alike⟩ := agree.outcomes
  · rw [show read source = _ from here, show read (source.blankComments extra) = _ from there]
    exact congrArg Except.error fault
  · rw [show read source = _ from here, show read (source.blankComments extra) = _ from there]
    exact congrArg Except.ok alike.outlines_eq

end Token

end ScopeLint
