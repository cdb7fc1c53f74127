import ScopeLint.Tree.Reader

/-!
A machine that judges the nesting of a source text in one pass, with an explicit stack of the
brackets and strings that are open. It builds nothing and knows nothing of words, numbers and
spacing; where no string is open it looks for brackets, quotes and comments, and inside a string
only for what ends the string or interpolates code.
-/

namespace ScopeLint

namespace Tree

/-- Something that was opened and has to be closed. -/
inductive Open where
  | group (delimiter : Delimiter)
  | string (form : Quotation)

namespace Machine

def opened? (char : Char) : Option Delimiter :=
  if char = '(' then some .paren
  else if char = '\x7b' then some .brace
  else if char = '[' then some .bracket
  else none

def isClosing (char : Char) : Bool := char = ')' || char = '\x7d' || char = ']'

def isQuote (char : Char) : Bool := char = '\'' || char = '"'

/-- What follows the first `#>`. -/
def pastMark? : List Glyph → Option (List Glyph)
  | hash :: angle :: rest =>
      if hash.char = '#' ∧ angle.char = '>' then some rest else pastMark? (angle :: rest)
  | _ => none

/-- A character of code. Brackets are pushed and popped, comments are skipped, and a quote, or an
at sign in front of one, pushes a string. -/
def inCode (stack : List Open) (glyph : Glyph) (rest : List Glyph) :
    Except SyntaxError (List Open × List Glyph) :=
  match opened? glyph.char with
  | some delimiter => .ok (.group delimiter :: stack, rest)
  | none =>
      if isClosing glyph.char then
        match stack with
        | .group delimiter :: below =>
            if glyph.char = delimiter.closing then .ok (below, rest)
            else .error ⟨.wrongClosing delimiter (some glyph.char), glyph.span.start⟩
        | _ => .error ⟨.strayClosing glyph.char, glyph.span.start⟩
      else if glyph.char = '#' then .ok (stack, rest.dropWhile fun next => next.char ≠ '\n')
      else if isQuote glyph.char then
        .ok (.string ⟨glyph.span.start, glyph.char, false⟩ :: stack, rest)
      else match rest with
        | [] => .ok (stack, [])
        | next :: behind =>
            if glyph.char = '<' ∧ next.char = '#' then
              match pastMark? behind with
              | some rest => .ok (stack, rest)
              | none => .error ⟨.openComment, glyph.span.start⟩
            else if glyph.char = '@' ∧ isQuote next.char then
              .ok (.string ⟨glyph.span.start, next.char, true⟩ :: stack, behind)
            else .ok (stack, next :: behind)

/-- A character of a string. Double quotes know the backtick, which hides the next character, and
a dollar sign in front of a parenthesis or brace, which pushes it. A plain string is popped at a
quote that is not doubled, a here-string at a quote in column one that an at sign follows. -/
def inString (form : Quotation) (below : List Open) (glyph : Glyph) (rest : List Glyph) :
    List Open × List Glyph :=
  if glyph.char = '\x60' ∧ form.quote = '"' then (.string form :: below, rest.tail)
  else match rest with
    | [] =>
        if glyph.char = form.quote ∧ !form.here then (below, []) else (.string form :: below, [])
    | next :: behind =>
        if glyph.char = form.quote then
          if form.here then
            if glyph.span.start.col = 1 ∧ next.char = '@' then (below, behind)
            else (.string form :: below, next :: behind)
          else if next.char = form.quote then (.string form :: below, behind)
          else (below, next :: behind)
        else if glyph.char = '$' ∧ form.quote = '"' then
          if next.char = '(' then (.group .paren :: .string form :: below, behind)
          else if next.char = '\x7b' then (.group .brace :: .string form :: below, behind)
          else (.string form :: below, next :: behind)
        else (.string form :: below, next :: behind)

/-- One step: the stack after the next character, and what is left of the text. -/
def step (stack : List Open) (glyph : Glyph) (rest : List Glyph) :
    Except SyntaxError (List Open × List Glyph) :=
  match stack with
  | .string form :: below => .ok (inString form below glyph rest)
  | _ => inCode stack glyph rest

theorem pastMark_length {glyphs rest : List Glyph} (found : pastMark? glyphs = some rest) :
    rest.length < glyphs.length := by
  induction glyphs using pastMark?.induct with
  | case1 hash angle behind closes =>
      rw [pastMark?, if_pos closes] at found
      obtain rfl := Option.some.inj found
      simp only [List.length_cons]
      omega
  | case2 hash angle behind unclosed induction =>
      rw [pastMark?, if_neg unclosed] at found
      have shorter := induction found
      simp only [List.length_cons] at shorter ⊢
      omega
  | case3 glyphs short =>
      cases glyphs with
      | nil => simp [pastMark?] at found
      | cons first rest =>
          cases rest with
          | nil => simp [pastMark?] at found
          | cons second rest => exact absurd rfl (short first second rest)

theorem inString_length (form : Quotation) (below : List Open) (glyph : Glyph)
    (rest : List Glyph) : (inString form below glyph rest).2.length ≤ rest.length := by
  unfold inString
  repeat' split
  all_goals simp

theorem inCode_length {stack after : List Open} {glyph : Glyph} {rest left : List Glyph}
    (moved : inCode stack glyph rest = .ok (after, left)) : left.length ≤ rest.length := by
  unfold inCode at moved
  repeat' split at moved
  all_goals simp only [Except.ok.injEq, Prod.mk.injEq, reduceCtorEq] at moved
  all_goals obtain ⟨-, rfl⟩ := moved
  all_goals first
    | exact Nat.le_refl _
    | exact (List.dropWhile_suffix _).length_le
    | simp only [List.length_cons]
  · have shorter := pastMark_length (by assumption)
    omega
  · omega

theorem step_length {stack after : List Open} {glyph : Glyph} {rest left : List Glyph}
    (moved : step stack glyph rest = .ok (after, left)) : left.length ≤ rest.length := by
  unfold step at moved
  split at moved
  · obtain ⟨-, rfl⟩ := Prod.mk.inj (Except.ok.inj moved)
    exact inString_length _ _ _ _
  · exact inCode_length moved

/-- The stack at the end of a text, or the fault at which the machine stops. -/
def run (stack : List Open) (glyphs : List Glyph) : Except SyntaxError (List Open) :=
  match glyphs with
  | [] => .ok stack
  | glyph :: rest =>
      match _ : step stack glyph rest with
      | .error error => .error error
      | .ok (after, left) => run after left
termination_by glyphs.length
decreasing_by
  have shorter := step_length (by assumption)
  simp only [List.length_cons]
  omega

/-- What is wrong with a text, given the outcome of a run on it: the fault at which the run
stopped, or whatever was opened last and is still open at the end. -/
def fault? (stop : Location) : Except SyntaxError (List Open) → Option SyntaxError
  | .error error => some error
  | .ok [] => none
  | .ok (.group delimiter :: _) => some ⟨.wrongClosing delimiter none, stop⟩
  | .ok (.string form :: _) => some ⟨.openString, form.start⟩

end Machine

end Tree

end ScopeLint
