import ScopeLint.Tree.Reader

/-!
What the first character of a lexeme tells. Each role says something about the character, and
the characters with a meaning of their own are never part of a word or number.
-/

namespace ScopeLint.Tree

def brackets : List Char := ['(', ')', '\x7b', '\x7d', '[', ']']

/-- Characters that are a lexeme of their own wherever they stand in code. -/
structure IsLone (char : Char) : Prop where
  notBlank : Text.isBlank char = false
  notWord : continuesWord char = false
  notBracket : char ∉ brackets
  notQuote : char ≠ '\'' ∧ char ≠ '"'
  notComment : char ≠ '#'

namespace Lead

/-- What each role says about a character. -/
def Fits (char : Char) : Lead → Prop
  | opening delimiter => char = delimiter.opening
  | closing delimiter => char = delimiter.closing
  | lineEnd => char = '\n'
  | comment => char = '#'
  | atSign => char = '@'
  | quote => char = '\'' ∨ char = '"'
  | word => startsWord char = true
  | number => Text.isDigit char = true
  | blank => Text.isBlank char = true ∧ char ≠ '\n'
  | other => IsLone char ∧ char ≠ '@'

theorem fits_ite {condition : Prop} [Decidable condition] {char : Char} {yes no : Lead}
    (holds : condition → yes.Fits char) (fails : ¬ condition → no.Fits char) :
    (if condition then yes else no).Fits char := by
  by_cases decided : condition
  · rw [if_pos decided]
    exact holds decided
  · rw [if_neg decided]
    exact fails decided

theorem fits_ofChar (char : Char) : (Lead.ofChar char).Fits char := by
  refine fits_ite id fun paren => fits_ite id fun brace => fits_ite id fun bracket => ?_
  refine fits_ite id fun parenEnd => fits_ite id fun braceEnd => fits_ite id fun bracketEnd => ?_
  refine fits_ite id fun line => fits_ite id fun hash => fits_ite id fun sign => ?_
  refine fits_ite (fun quoted => by simpa [Fits] using quoted) fun unquoted => ?_
  refine fits_ite id fun unstarted => fits_ite id fun digitless => ?_
  refine fits_ite (fun blank => ⟨blank, line⟩) fun visible => ⟨⟨?_, ?_, ?_, ?_, hash⟩, sign⟩
  · simpa using visible
  · simp only [startsWord, Bool.not_eq_true] at unstarted
    simp [continuesWord, unstarted, digitless]
  · simp [brackets, paren, brace, bracket, parenEnd, braceEnd, bracketEnd]
  · simpa using unquoted

theorem of_isLone {char : Char} (lone : IsLone char) :
    Lead.ofChar char = .atSign ∨ Lead.ofChar char = .other := by
  have fits := fits_ofChar char
  cases lead : Lead.ofChar char with
  | atSign => exact .inl rfl
  | other => exact .inr rfl
  | opening delimiter =>
      rw [lead] at fits
      exact absurd (fits ▸ by cases delimiter <;> decide) lone.notBracket
  | closing delimiter =>
      rw [lead] at fits
      exact absurd (fits ▸ by cases delimiter <;> decide) lone.notBracket
  | lineEnd =>
      rw [lead] at fits
      have blank := lone.notBlank
      rw [show char = '\n' from fits] at blank
      exact absurd blank (by decide)
  | comment =>
      rw [lead] at fits
      exact absurd fits lone.notComment
  | quote =>
      rw [lead] at fits
      rcases fits with single | double
      · exact absurd single lone.notQuote.1
      · exact absurd double lone.notQuote.2
  | word =>
      rw [lead] at fits
      have continues := lone.notWord
      simp only [continuesWord, Bool.or_eq_false_iff] at continues
      simp [Fits, startsWord, continues] at fits
  | number =>
      rw [lead] at fits
      have continues := lone.notWord
      simp only [continuesWord, Bool.or_eq_false_iff] at continues
      exact absurd (continues.2.symm.trans fits) (by decide)
  | blank =>
      rw [lead] at fits
      exact absurd (lone.notBlank.symm.trans fits.1) (by decide)

end Lead

theorem continuesWord_of_starts {char : Char} (starts : startsWord char = true) :
    continuesWord char = true := by
  simp only [startsWord, continuesWord, Bool.or_eq_true] at starts ⊢
  exact .inl starts

theorem continuesWord_of_digit {char : Char} (digit : Text.isDigit char = true) :
    continuesWord char = true := by
  simp [continuesWord, digit]

def marks : List Char := brackets ++ ['#', '<', '@', '\'', '"', '\x60', '$']

theorem not_mark_of_continues {char : Char} (continues : continuesWord char = true) :
    char ∉ marks := by
  intro member
  have never : (marks.all fun mark => !continuesWord mark) = true := by decide
  have stops := List.all_eq_true.mp never char member
  rw [continues] at stops
  exact absurd stops (by decide)

theorem not_mark_of_blank {char : Char} (blank : Text.isBlank char = true) : char ∉ marks := by
  intro member
  have never : (marks.all fun mark => !Text.isBlank mark) = true := by decide
  have visible := List.all_eq_true.mp never char member
  rw [blank] at visible
  exact absurd visible (by decide)

end ScopeLint.Tree
