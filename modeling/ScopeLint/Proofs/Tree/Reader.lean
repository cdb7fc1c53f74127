import ScopeLint.Proofs.Tree.Lead

/-!
The reader one step at a time. What the next one or two characters of code begin, and what those
of a string do, is said once, with one equation for every case; proofs about the reader go by
these cases and never open its definition.
-/

namespace ScopeLint.Tree

variable {stop : Location} {fuel : Nat} {glyph next : Glyph} {rest behind : List Glyph}

def IsQuote (char : Char) : Prop := char = '\'' ∨ char = '"'

/-- A glyph that is a symbol in front of the given text: a line break, or a character that stands
alone and opens neither a comment nor a here-string. -/
def SymbolAt (glyph : Glyph) (rest : List Glyph) : Prop :=
  glyph.char = '\n' ∨ IsLone glyph.char ∧ ∀ next ∈ rest.head?,
    ¬ (glyph.char = '<' ∧ next.char = '#') ∧ ¬ (glyph.char = '@' ∧ IsQuote next.char)

inductive Begins (glyph : Glyph) : List Glyph → Prop
  | closing {rest : List Glyph} (delimiter : Delimiter)
      (lead : Lead.ofChar glyph.char = .closing delimiter) : Begins glyph rest
  | opening {rest : List Glyph} (delimiter : Delimiter)
      (lead : Lead.ofChar glyph.char = .opening delimiter) : Begins glyph rest
  | line {rest : List Glyph} (lead : Lead.ofChar glyph.char = .comment) : Begins glyph rest
  | block {next : Glyph} {behind : List Glyph} (angle : glyph.char = '<') (hash : next.char = '#') :
      Begins glyph (next :: behind)
  | blank {rest : List Glyph} (lead : Lead.ofChar glyph.char = .blank) : Begins glyph rest
  | here {next : Glyph} {behind : List Glyph} (lead : Lead.ofChar glyph.char = .atSign)
      (quoted : IsQuote next.char) : Begins glyph (next :: behind)
  | quote {rest : List Glyph} (lead : Lead.ofChar glyph.char = .quote) : Begins glyph rest
  | word {rest : List Glyph} (lead : Lead.ofChar glyph.char = .word) : Begins glyph rest
  | number {rest : List Glyph} (lead : Lead.ofChar glyph.char = .number) : Begins glyph rest
  | symbol {rest : List Glyph} (alone : SymbolAt glyph rest) : Begins glyph rest

theorem isLone_atSign : IsLone '@' := ⟨by decide, by decide, by decide, by decide, by decide⟩

theorem begins (glyph : Glyph) (rest : List Glyph) : Begins glyph rest := by
  have fits := Lead.fits_ofChar glyph.char
  cases lead : Lead.ofChar glyph.char with
  | closing delimiter => exact .closing delimiter lead
  | opening delimiter => exact .opening delimiter lead
  | comment => exact .line lead
  | blank => exact .blank lead
  | quote => exact .quote lead
  | word => exact .word lead
  | number => exact .number lead
  | lineEnd =>
      rw [lead] at fits
      exact .symbol (.inl fits)
  | atSign =>
      rw [lead] at fits
      have alone (rest : List Glyph) (plain : ∀ next ∈ rest.head?, ¬ IsQuote next.char) :
          SymbolAt glyph rest := by
        refine .inr ⟨fits ▸ isLone_atSign, fun next head => ⟨?_, fun here => plain next head here.2⟩⟩
        rintro ⟨angle, -⟩
        exact absurd (fits.symm.trans angle) (by decide)
      cases rest with
      | nil => exact .symbol (alone [] (by simp))
      | cons next behind =>
          by_cases quoted : IsQuote next.char
          · exact .here lead quoted
          · exact .symbol (alone (next :: behind) (by simpa using quoted))
  | other =>
      rw [lead] at fits
      have alone (rest : List Glyph)
          (plain : ∀ next ∈ rest.head?, ¬ (glyph.char = '<' ∧ next.char = '#')) :
          SymbolAt glyph rest :=
        .inr ⟨fits.1, fun next head => ⟨plain next head, fun here => fits.2 here.1⟩⟩
      cases rest with
      | nil => exact .symbol (alone [] (by simp))
      | cons next behind =>
          by_cases opens : glyph.char = '<' ∧ next.char = '#'
          · exact .block opens.1 opens.2
          · exact .symbol (alone (next :: behind) (by simpa using opens))

attribute [local simp] readTrees readString

theorem readTrees_nil : readTrees stop (fuel + 1) [] = .ok ([], []) := by
  simp only [readTrees]

theorem readTrees_closing {delimiter : Delimiter}
    (lead : Lead.ofChar glyph.char = .closing delimiter) :
    readTrees stop (fuel + 1) (glyph :: rest) = .ok ([], glyph :: rest) := by
  simp only [readTrees, lead]

theorem readTrees_opening {delimiter : Delimiter}
    (lead : Lead.ofChar glyph.char = .opening delimiter) :
    readTrees stop (fuel + 1) (glyph :: rest) = (do
      let (body, rest) ← readTrees stop fuel rest
      let (closed, rest) ← closeGroup stop delimiter glyph body rest
      let (trees, rest) ← readTrees stop fuel rest
      return (closed.link trees, rest)) := by
  simp only [readTrees, lead]

theorem readTrees_line (lead : Lead.ofChar glyph.char = .comment) :
    readTrees stop (fuel + 1) (glyph :: rest) = readTrees stop fuel (skipLine rest) := by
  simp only [readTrees, lead]

theorem readTrees_blank (lead : Lead.ofChar glyph.char = .blank) :
    readTrees stop (fuel + 1) (glyph :: rest) = readTrees stop fuel rest := by
  simp only [readTrees, lead]

theorem readTrees_block (angle : glyph.char = '<') (hash : next.char = '#') :
    readTrees stop (fuel + 1) (glyph :: next :: behind) =
      match skipBlock? behind with
      | none => .error ⟨.openComment, glyph.span.start⟩
      | some left => readTrees stop fuel left := by
  have lead : Lead.ofChar glyph.char = .other := by rw [angle]; decide
  have opens : (glyph.char = '<' && nextIs '#' (next :: behind)) = true := by
    simp [angle, hash, nextIs]
  cases closed : skipBlock? behind with
  | none => simp only [readTrees, lead, opens, if_true, List.tail_cons, closed]
  | some left => simp only [readTrees, lead, opens, if_true, List.tail_cons, closed]

theorem readTrees_here (lead : Lead.ofChar glyph.char = .atSign) (quoted : IsQuote next.char) :
    readTrees stop (fuel + 1) (glyph :: next :: behind) = (do
      let (parts, last, rest) ← readString stop fuel ⟨glyph.span.start, next.char, true⟩ behind
      let (trees, rest) ← readTrees stop fuel rest
      return (link (.string ⟨glyph.span.start, last⟩ parts) trees, rest)) := by
  have test : (next.char = '\'' || next.char = '"') = true := by simpa [IsQuote] using quoted
  simp only [readTrees, lead, test, if_true]

theorem readTrees_quote (lead : Lead.ofChar glyph.char = .quote) :
    readTrees stop (fuel + 1) (glyph :: rest) = (do
      let (parts, last, rest) ← readString stop fuel ⟨glyph.span.start, glyph.char, false⟩ rest
      let (trees, rest) ← readTrees stop fuel rest
      return (link (.string ⟨glyph.span.start, last⟩ parts) trees, rest)) := by
  simp only [readTrees, lead]

theorem readTrees_word (lead : Lead.ofChar glyph.char = .word) :
    readTrees stop (fuel + 1) (glyph :: rest) = (do
      let (trees, left) ← readTrees stop fuel (readWord glyph rest).2
      return (link (.word (readWord glyph rest).1 .alone) trees, left)) := by
  simp only [readTrees, lead]

theorem readTrees_number (lead : Lead.ofChar glyph.char = .number) :
    readTrees stop (fuel + 1) (glyph :: rest) = (do
      let (trees, left) ← readTrees stop fuel (readNumber glyph rest).2
      return (link (.number (readNumber glyph rest).1) trees, left)) := by
  simp only [readTrees, lead]

theorem readTrees_symbol (alone : SymbolAt glyph rest) :
    readTrees stop (fuel + 1) (glyph :: rest) = (do
      let (trees, left) ← readTrees stop fuel rest
      return (link (.symbol glyph.char glyph.span .alone) trees, left)) := by
  rcases alone with line | ⟨lone, plain⟩
  · have lead : Lead.ofChar glyph.char = .lineEnd := by rw [line]; decide
    simp only [readTrees, lead]
  · rcases Lead.of_isLone lone with lead | lead
    · have sign : glyph.char = '@' := (lead ▸ Lead.fits_ofChar glyph.char : Lead.Fits _ .atSign)
      cases rest with
      | nil => cases fuel <;> simp only [readTrees, lead] <;> rfl
      | cons next behind =>
          have test : (next.char = '\'' || next.char = '"') = false := by
            simpa [IsQuote, sign] using (plain next rfl).2
          simp [lead, test]
    · have test : (glyph.char = '<' && nextIs '#' rest) = false := by
        cases rest with
        | nil => simp [nextIs]
        | cons next behind => simpa [nextIs] using (plain next rfl).1
      simp [lead, test]

inductive Goes (form : Quotation) (glyph : Glyph) : List Glyph → Prop
  | escape {rest : List Glyph} (backtick : glyph.char = '\x60') (double : form.quote = '"') :
      Goes form glyph rest
  | close {rest left : List Glyph} {last : Location}
      (plain : ¬ (glyph.char = '\x60' ∧ form.quote = '"')) (quoted : glyph.char = form.quote)
      (closes : form.close? glyph rest = some (last, left)) : Goes form glyph rest
  | stay {rest : List Glyph} (plain : ¬ (glyph.char = '\x60' ∧ form.quote = '"'))
      (quoted : glyph.char = form.quote) (stays : form.close? glyph rest = none) :
      Goes form glyph rest
  | group {next : Glyph} {behind : List Glyph} {delimiter : Delimiter} (dollar : glyph.char = '$')
      (double : form.quote = '"') (lead : Lead.ofChar next.char = .opening delimiter)
      (round : delimiter ≠ .bracket) : Goes form glyph (next :: behind)
  | word {next : Glyph} {behind : List Glyph} (dollar : glyph.char = '$')
      (double : form.quote = '"') (lead : Lead.ofChar next.char = .word) :
      Goes form glyph (next :: behind)
  | pass {rest : List Glyph} (plain : ¬ (glyph.char = '\x60' ∧ form.quote = '"'))
      (unquoted : glyph.char ≠ form.quote)
      (bare : glyph.char = '$' ∧ form.quote = '"' → ∀ next ∈ rest.head?,
        next.char ≠ '(' ∧ next.char ≠ '\x7b' ∧ Lead.ofChar next.char ≠ .word) :
      Goes form glyph rest

theorem goes (form : Quotation) (glyph : Glyph) (rest : List Glyph) : Goes form glyph rest := by
  by_cases escape : glyph.char = '\x60' ∧ form.quote = '"'
  · exact .escape escape.1 escape.2
  by_cases quoted : glyph.char = form.quote
  · cases closes : form.close? glyph rest with
    | none => exact .stay escape quoted closes
    | some closed => exact .close escape quoted closes
  by_cases dollar : glyph.char = '$' ∧ form.quote = '"'
  · cases rest with
    | nil => exact .pass escape quoted (by simp)
    | cons next behind =>
        by_cases round : ∃ delimiter, Lead.ofChar next.char = .opening delimiter ∧ delimiter ≠ .bracket
        · obtain ⟨delimiter, lead, round⟩ := round
          exact .group dollar.1 dollar.2 lead round
        · by_cases lead : Lead.ofChar next.char = .word
          · exact .word dollar.1 dollar.2 lead
          · refine .pass escape quoted fun _ other head => ?_
            obtain rfl := Option.some.inj head
            refine ⟨fun paren => round ⟨.paren, ?_, by decide⟩,
              fun brace => round ⟨.brace, ?_, by decide⟩, lead⟩
            · rw [paren]
              decide
            · rw [brace]
              decide
  · exact .pass escape quoted fun both => absurd both dollar

variable {form : Quotation}

theorem readString_nil :
    readString stop fuel form [] = .error ⟨.openString, form.start⟩ := by
  cases fuel <;> simp only [readString]

theorem readString_escape (backtick : glyph.char = '\x60') (double : form.quote = '"') :
    readString stop (fuel + 1) form (glyph :: rest) = readString stop fuel form rest.tail := by
  simp [backtick, double, Quotation.expands]

section Unescaped

variable (plain : ¬ (glyph.char = '\x60' ∧ form.quote = '"'))

include plain

theorem unescaped : ¬ (glyph.char = '\x60' && form.expands) = true := by
  simpa [Quotation.expands] using plain

theorem readString_close (quoted : glyph.char = form.quote) {last : Location} {left : List Glyph}
    (closes : form.close? glyph rest = some (last, left)) :
    readString stop (fuel + 1) form (glyph :: rest) = .ok ([], last, left) := by
  unfold readString
  rw [if_neg (unescaped plain), if_pos quoted, closes]

theorem readString_stay (quoted : glyph.char = form.quote)
    (stays : form.close? glyph rest = none) :
    readString stop (fuel + 1) form (glyph :: rest) =
      readString stop fuel form (form.afterQuote rest) := by
  conv => lhs; unfold readString
  rw [if_neg (unescaped plain), if_pos quoted, stays]

theorem readString_pass (unquoted : glyph.char ≠ form.quote)
    (bare : glyph.char = '$' ∧ form.quote = '"' → ∀ next ∈ rest.head?,
      next.char ≠ '(' ∧ next.char ≠ '\x7b' ∧ Lead.ofChar next.char ≠ .word) :
    readString stop (fuel + 1) form (glyph :: rest) = readString stop fuel form rest := by
  conv => lhs; unfold readString
  rw [if_neg (unescaped plain), if_neg unquoted]
  split
  next dollar =>
    have interpolates : glyph.char = '$' ∧ form.quote = '"' := by
      simpa [Quotation.expands] using dollar
    cases rest with
    | nil => exact readString_nil.symm
    | cons next behind =>
        obtain ⟨noParen, noBrace, noWord⟩ := bare interpolates next rfl
        have fits := Lead.fits_ofChar next.char
        cases lead : Lead.ofChar next.char with
        | opening delimiter =>
            rw [lead] at fits
            cases delimiter with
            | paren => exact absurd fits noParen
            | brace => exact absurd fits noBrace
            | bracket => simp only [lead]
        | word => exact absurd lead noWord
        | _ => simp only [lead]
  next => rfl

end Unescaped

theorem not_escape_of_dollar (dollar : glyph.char = '$') :
    ¬ (glyph.char = '\x60' ∧ form.quote = '"') := by
  rintro ⟨backtick, -⟩
  exact absurd (dollar.symm.trans backtick) (by decide)

theorem not_quote_of_dollar (dollar : glyph.char = '$') (double : form.quote = '"') :
    glyph.char ≠ form.quote := by
  rw [dollar, double]
  decide

theorem readString_group (dollar : glyph.char = '$') (double : form.quote = '"')
    {delimiter : Delimiter} (lead : Lead.ofChar next.char = .opening delimiter)
    (round : delimiter ≠ .bracket) :
    readString stop (fuel + 1) form (glyph :: next :: behind) = (do
      let (body, rest) ← readTrees stop fuel behind
      let (closed, rest) ← closeGroup stop delimiter next body rest
      let (parts, last, rest) ← readString stop fuel form rest
      return (closed :: parts, last, rest)) := by
  have test : (glyph.char = '$' && form.expands) = true := by
    simp [dollar, double, Quotation.expands]
  conv => lhs; unfold readString
  rw [if_neg (unescaped (not_escape_of_dollar dollar)), if_neg (not_quote_of_dollar dollar double),
    if_pos test]
  cases delimiter with
  | paren => simp only [lead]
  | brace => simp only [lead]
  | bracket => exact absurd rfl round

theorem readString_word (dollar : glyph.char = '$') (double : form.quote = '"')
    (lead : Lead.ofChar next.char = .word) :
    readString stop (fuel + 1) form (glyph :: next :: behind) = (do
      let (parts, last, rest) ← readString stop fuel form (readWord next behind).2
      return (.word (readWord next behind).1 .alone :: parts, last, rest)) := by
  have test : (glyph.char = '$' && form.expands) = true := by
    simp [dollar, double, Quotation.expands]
  conv => lhs; unfold readString
  rw [if_neg (unescaped (not_escape_of_dollar dollar)), if_neg (not_quote_of_dollar dollar double),
    if_pos test]
  simp only [lead]

end ScopeLint.Tree
