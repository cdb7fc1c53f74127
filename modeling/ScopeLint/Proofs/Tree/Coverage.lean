import Mathlib.Data.List.TakeWhile
import ScopeLint.Proofs.Outcome
import ScopeLint.Proofs.Tree.Layout

/-!
Reading loses nothing: the lexemes of a text that can be read cover it but for blanks and
comments. The reader is followed on glyphs, where every call leaves a part of the text that it was
given, and places are turned into bytes at the end.
-/

namespace ScopeLint.Tree

variable {source : Text} {glyph : Glyph} {glyphs rest left after : List Glyph} {tree : Tree}
  {trees : List Tree}

inductive Laid (source : Text) (left : List Glyph) : List Glyph → List Tree → Prop
  | done {gap : List Glyph} (free : Gap (gap.map Glyph.char) (left.map Glyph.char)) :
      Laid source left (gap ++ left) []
  | lexeme {gap rest after : List Glyph} {glyph : Glyph} {tree : Tree} {trees : List Tree}
      (free : Gap (gap.map Glyph.char) ((glyph :: rest).map Glyph.char)) (behind : after <:+ rest)
      (span : tree.span = ⟨glyph.span.start, source.placeOf after⟩) (covers : Covers source tree)
      (meets : Meets tree trees) (continues : Laid source left after trees) :
      Laid source left (gap ++ glyph :: rest) (tree :: trees)

theorem Laid.nil (source : Text) (left : List Glyph) : Laid source left left [] := by
  have nothing : Laid source left ([] ++ left) [] := .done .nil
  exact nothing

theorem Laid.suffix (laid : Laid source left glyphs trees) : left <:+ glyphs := by
  induction laid with
  | done free => exact List.suffix_append _ _
  | lexeme free behind span covers meets continues induction =>
      exact ((induction.trans behind).trans (List.suffix_cons _ _)).trans (List.suffix_append _ _)

/-- On bytes, lexemes over glyphs make up a level. -/
theorem Laid.level (laid : Laid source left glyphs trees) (within : glyphs <:+ source.glyphs) :
    Level source (source.placeOf glyphs).byte (source.edgeOf left) trees := by
  induction laid with
  | done free =>
      have behind := (List.suffix_append _ _).trans within
      rw [Level, Text.between_edgeOf within, Text.beyond_edgeOf behind]
      exact ⟨Text.placeOf_le_edgeOf within, free⟩
  | @lexeme gap rest after glyph tree trees free behind span covers meets continues induction =>
      have here : glyph :: rest <:+ source.glyphs := (List.suffix_append _ _).trans within
      have start : tree.span.start = source.placeOf (glyph :: rest) := by rw [span]; rfl
      have stop : tree.span.stop = source.placeOf after := by rw [span]
      rw [Level, start, stop, Text.between_placeOf within, Text.beyond_placeOf here]
      exact ⟨Text.placeOf_le within, Text.start_lt_placeOf here behind, free, covers, meets,
        induction ((behind.trans (List.suffix_cons _ _)).trans here)⟩

theorem Laid.skip (skipped : List Glyph) (laid : Laid source left rest trees)
    (grows : ∀ chars behind, chars ++ behind = rest.map Glyph.char → Gap chars behind →
      Gap (skipped.map Glyph.char ++ chars) behind) : Laid source left (skipped ++ rest) trees := by
  cases laid with
  | done free =>
      rw [← List.append_assoc]
      refine .done ?_
      rw [List.map_append]
      exact grows _ _ (List.map_append ..).symm free
  | lexeme free behind span covers meets continues =>
      rw [← List.append_assoc]
      refine .lexeme ?_ behind span covers meets continues
      rw [List.map_append]
      exact grows _ _ (List.map_append ..).symm free

theorem Laid.skip_blank (blank : Text.isBlank glyph.char = true) (inLine : glyph.char ≠ '\n')
    (laid : Laid source left rest trees) : Laid source left (glyph :: rest) trees :=
  laid.skip [glyph] fun _ _ _ free => .blank blank inLine free

theorem Laid.skip_line (hash : glyph.char = '#') (laid : Laid source left (skipLine rest) trees) :
    Laid source left (glyph :: rest) trees := by
  let inside := fun next : Glyph => decide (next.char ≠ '\n')
  have split : glyph :: rest = (glyph :: rest.takeWhile inside) ++ skipLine rest :=
    congrArg (List.cons glyph) List.takeWhile_append_dropWhile.symm
  rw [split]
  apply laid.skip
  intro chars behind same free
  rw [List.map_cons, hash]
  refine .line ?_ ?_ free
  · intro member
    obtain ⟨next, taken, line⟩ := List.mem_map.mp member
    have stays := List.mem_takeWhile_imp taken
    simp [inside, line] at stays
  · rw [same]
    intro next head
    rw [List.head?_map] at head
    obtain ⟨first, found, rfl⟩ := Option.map_eq_some_iff.mp head
    have ends := List.head?_dropWhile_not inside rest
    rw [show rest.dropWhile inside = skipLine rest from rfl, found] at ends
    simpa [inside] using ends

/-- A block comment ends at its first end mark. -/
theorem exists_of_skipBlock (closed : skipBlock? glyphs = some left) :
    ∃ comment hash angle, glyphs = comment ++ hash :: angle :: left ∧ hash.char = '#' ∧
      angle.char = '>' ∧ ¬ ['#', '>'] <:+: comment.map Glyph.char := by
  induction glyphs with
  | nil => simp [skipBlock?] at closed
  | cons glyph rest induction =>
      rw [skipBlock?] at closed
      split at closed
      next marks =>
        simp only [nextIs, Bool.and_eq_true, decide_eq_true_eq] at marks
        obtain ⟨angle, head, close⟩ := Option.map_eq_some_iff.mp marks.2
        obtain ⟨behind, rfl⟩ := List.head?_eq_some_iff.mp head
        obtain rfl := Option.some.inj closed
        exact ⟨[], glyph, angle, rfl, marks.1, close, by simp⟩
      next unmarked =>
        obtain ⟨comment, hash, angle, rfl, opens, closes, unclosed⟩ := induction closed
        refine ⟨glyph :: comment, hash, angle, rfl, opens, closes, ?_⟩
        rw [List.map_cons, List.infix_cons_iff]
        rintro (first | later)
        · obtain ⟨same, next⟩ := List.cons_prefix_cons.mp first
          cases comment with
          | nil => simp at next
          | cons second comment =>
              have close : second.char = '>' := (List.cons_prefix_cons.mp next).1.symm
              exact unmarked (by simp [nextIs, ← same, close])
        · exact unclosed later

theorem Laid.skip_block {next : Glyph} {behind : List Glyph} (angle : glyph.char = '<')
    (hash : next.char = '#') (closed : skipBlock? behind = some rest)
    (laid : Laid source left rest trees) : Laid source left (glyph :: next :: behind) trees := by
  obtain ⟨comment, mark, last, rfl, marks, ends, unclosed⟩ := exists_of_skipBlock closed
  have split : glyph :: next :: (comment ++ mark :: last :: rest) =
      (glyph :: next :: (comment ++ [mark, last])) ++ rest := by simp
  rw [split]
  apply laid.skip
  intro chars behind _ free
  have comments := Gap.block unclosed free
  simpa [angle, hash, marks, ends] using comments

theorem suffix_of_skipBlock (closed : skipBlock? glyphs = some left) : left <:+ glyphs := by
  obtain ⟨comment, hash, angle, rfl, -⟩ := exists_of_skipBlock closed
  exact ⟨comment ++ [hash, angle], by simp⟩

@[simp]
theorem span_withSpacing (spacing : Spacing) (tree : Tree) :
    (tree.withSpacing spacing).span = tree.span := by
  cases tree <;> rfl

@[simp]
theorem kind_withSpacing (spacing : Spacing) (tree : Tree) :
    (tree.withSpacing spacing).kind = tree.kind := by
  cases tree <;> rfl

theorem covers_withSpacing (spacing : Spacing) (covers : Covers source tree) :
    Covers source (tree.withSpacing spacing) := by
  cases tree <;> simpa [withSpacing, Covers] using covers

theorem spacing_withSpacing (spacing : Spacing) (tree : Tree) :
    (tree.withSpacing spacing).spacing = .joined ↔
      (tree.kind = .word ∨ tree.kind = .symbol) ∧ spacing = .joined := by
  cases tree <;> simp [withSpacing, Tree.spacing, kind]

theorem isRun_runSpan {starts continues : Char → Bool} (within : glyph :: rest <:+ source.glyphs)
    (first : starts glyph.char = true) :
    IsRun source (runSpan glyph (rest.takeWhile fun next => continues next.char)) starts continues
      ∧ runSpan glyph (rest.takeWhile fun next => continues next.char) =
        ⟨glyph.span.start, source.placeOf (rest.dropWhile fun next => continues next.char)⟩ := by
  generalize taken : rest.takeWhile (fun next => continues next.char) = run
  generalize dropped : rest.dropWhile (fun next => continues next.char) = after
  have split : rest = run ++ after := by rw [← taken, ← dropped, List.takeWhile_append_dropWhile]
  rw [split] at within
  have stop : (runSpan glyph run).stop = source.placeOf after := Text.stopOf_eq_placeOf within
  have behind : after <:+ source.glyphs :=
    ((List.suffix_append _ _).trans (List.suffix_cons _ _)).trans within
  have whole : glyph :: run ++ after <:+ source.glyphs := within
  have text := Text.between_placeOf whole
  rw [List.cons_append, Text.placeOf_cons, List.map_cons, ← stop] at text
  have span : runSpan glyph run = ⟨glyph.span.start, source.placeOf after⟩ := by
    rw [← stop]
    rfl
  refine ⟨⟨⟨glyph.char, run.map Glyph.char, text, first, ?_⟩, ?_⟩, span⟩
  · intro char member
    obtain ⟨next, found, rfl⟩ := List.mem_map.mp member
    have kept : next ∈ rest.takeWhile fun next => continues next.char := taken ▸ found
    have holds := List.mem_takeWhile_imp kept
    exact holds
  · rw [stop, Text.beyond_placeOf behind]
    intro char head
    rw [List.head?_map] at head
    obtain ⟨next, found, rfl⟩ := Option.map_eq_some_iff.mp head
    have ends := List.head?_dropWhile_not (fun next : Glyph => continues next.char) rest
    rw [dropped, found] at ends
    simpa using ends

/-- Where the first lexeme of a stream stands, and what a number starts with. -/
theorem Laid.exists_head {next : Tree} (laid : Laid source left after (next :: trees))
    (within : after <:+ source.glyphs) :
    ∃ gap glyph rest, after = gap ++ glyph :: rest ∧ next.span.start = glyph.span.start ∧
      (next.kind = .number → Text.isDigit glyph.char = true) := by
  cases laid with
  | @lexeme gap rest after glyph tree trees free behind span covers meets continues =>
      refine ⟨gap, glyph, rest, rfl, by rw [span], ?_⟩
      intro number
      obtain ⟨front, rfl⟩ := behind
      have here : glyph :: front ++ after <:+ source.glyphs := (List.suffix_append _ _).trans within
      cases next with
      | number numberSpan =>
          rw [Covers] at covers
          obtain ⟨first, more, text, digit, -⟩ := covers.text
          rw [show numberSpan = _ from span] at text
          have shown := Text.between_placeOf here
          rw [List.cons_append, Text.placeOf_cons, List.map_cons] at shown
          rw [shown] at text
          exact (List.cons.inj text).1 ▸ digit
      | _ => simp [kind] at number

theorem Covers.ends_word (covers : Covers source tree) (word : tree.kind = .word)
    (stop : tree.span.stop = source.placeOf (glyph :: rest))
    (within : glyph :: rest <:+ source.glyphs) : continuesWord glyph.char = false := by
  cases tree with
  | word span spacing =>
      rw [Covers] at covers
      apply covers.ends
      rw [show span.stop = _ from stop, Text.beyond_placeOf within]
      rfl
  | _ => simp [kind] at word

theorem exists_link (tree : Tree) (trees : List Tree) :
    ∃ spacing, tree.link trees = tree.withSpacing spacing :: trees ∧
      (spacing = .joined ↔ ∃ next ∈ trees.head?, tree.span.stop = next.span.start) := by
  cases trees with
  | nil => exact ⟨.alone, rfl, by simp⟩
  | cons next rest =>
      refine ⟨_, rfl, ?_⟩
      split
      next touches => simp [touches]
      next apart => simp [apart]

theorem Laid.meets (laid : Laid source left after trees) (within : after <:+ source.glyphs)
    (stop : tree.span.stop = source.placeOf after) (covers : Covers source tree)
    {spacing : Spacing}
    (linked : spacing = .joined ↔ ∃ next ∈ trees.head?, tree.span.stop = next.span.start) :
    Meets (tree.withSpacing spacing) trees := by
  have order : ∀ next ∈ trees.head?,
      tree.span.stop = next.span.start ∧ ¬ (tree.kind = .word ∧ next.kind = .number) ∨
        tree.span.stop.byte < next.span.start.byte := by
    intro next head
    obtain ⟨others, rfl⟩ := List.head?_eq_some_iff.mp head
    obtain ⟨gap, glyph, rest, rfl, start, digit⟩ := laid.exists_head within
    rw [start]
    cases gap with
    | nil =>
        -- With nothing in between, the number's first digit would have continued the word.
        refine .inl ⟨stop, fun both => ?_⟩
        have ends := covers.ends_word both.1 stop within
        rw [continuesWord_of_digit (digit both.2)] at ends
        exact absurd ends (by decide)
    | cons first gap =>
        rw [stop]
        exact .inr (Text.placeOf_lt within (by simp))
  constructor
  · intro next head word number
    rw [kind_withSpacing] at word
    rw [span_withSpacing]
    exact (order next head).resolve_left fun touches => touches.2 ⟨word, number⟩
  · rw [spacing_withSpacing, kind_withSpacing, span_withSpacing, linked]
    refine and_congr_right fun _ => exists_congr fun next => and_congr_right fun head => ?_
    constructor
    · exact congrArg Location.byte
    · intro same
      exact ((order next head).resolve_right (by omega)).1

theorem Laid.link (laid : Laid source left after trees) (within : glyph :: rest <:+ source.glyphs)
    (behind : after <:+ rest) (span : tree.span = ⟨glyph.span.start, source.placeOf after⟩)
    (covers : Covers source tree) : Laid source left (glyph :: rest) (tree.link trees) := by
  obtain ⟨spacing, linked, joined⟩ := exists_link tree trees
  have withinAfter := (behind.trans (List.suffix_cons _ _)).trans within
  have meets := laid.meets withinAfter (by rw [span]) covers joined
  have first : Laid source left ([] ++ glyph :: rest) (tree.withSpacing spacing :: trees) :=
    .lexeme .nil behind (by rw [span_withSpacing, span]) (covers_withSpacing spacing covers) meets laid
  rw [linked]
  exact first

theorem covers_word (within : glyph :: rest <:+ source.glyphs)
    (starts : startsWord glyph.char = true) :
    Covers source (.word (readWord glyph rest).1 .alone) ∧ (readWord glyph rest).1 =
      ⟨glyph.span.start, source.placeOf (readWord glyph rest).2⟩ :=
  isRun_runSpan within starts

theorem covers_number (within : glyph :: rest <:+ source.glyphs)
    (digit : Text.isDigit glyph.char = true) :
    Covers source (.number (readNumber glyph rest).1) ∧ (readNumber glyph rest).1 =
      ⟨glyph.span.start, source.placeOf (readNumber glyph rest).2⟩ :=
  isRun_runSpan within digit

theorem covers_symbol (within : glyph :: rest <:+ source.glyphs) (alone : SymbolAt glyph rest) :
    Covers source (.symbol glyph.char glyph.span .alone) := by
  have text := Text.between_glyph within
  rw [← Text.stop_eq_placeOf within] at text
  rw [Covers]
  exact ⟨text, alone.imp_right And.left⟩

theorem covers_group {delimiter : Delimiter} {last : Glyph}
    (within : glyph :: rest <:+ source.glyphs) (opens : glyph.char = delimiter.opening)
    (closes : last.char = delimiter.closing) (laid : Laid source (last :: left) rest trees) :
    Covers source (.group delimiter ⟨glyph.span.start, last.span.stop⟩ trees) ∧
      last.span.stop = source.placeOf left := by
  have inside : rest <:+ source.glyphs := (List.suffix_cons _ _).trans within
  have ending : last :: left <:+ source.glyphs := laid.suffix.trans inside
  have stop := Text.stop_eq_placeOf ending
  have openingText := Text.between_glyph within
  have closingText := Text.between_glyph ending
  rw [opens] at openingText
  rw [closes, ← stop] at closingText
  constructor
  · rw [Covers]
    exact ⟨_, _, openingText, closingText, laid.level inside⟩
  · exact stop

theorem covers_string {opening closing : List Glyph} {parts : List Tree}
    (within : opening ++ rest <:+ source.glyphs) (ending : closing ++ left <:+ rest)
    (quotes : Quotes (opening.map Glyph.char) (closing.map Glyph.char))
    (inside : Parts source (source.placeOf rest).byte (source.placeOf (closing ++ left)).byte parts) :
    Covers source (.string ⟨source.placeOf (opening ++ rest), source.placeOf left⟩ parts) := by
  have openingText := Text.between_placeOf within
  have closingText :=
    Text.between_placeOf (ending.trans ((List.suffix_append _ _).trans within))
  rw [Covers]
  exact ⟨_, _, _, _, quotes, openingText, closingText, inside⟩

theorem exists_of_closeGroup {stop : Location} {delimiter : Delimiter} {body : List Tree}
    (success : closeGroup stop delimiter glyph body glyphs = .ok (tree, left)) :
    ∃ last, glyphs = last :: left ∧ last.char = delimiter.closing ∧
      tree = .group delimiter ⟨glyph.span.start, last.span.stop⟩ body := by
  cases glyphs with
  | nil => cases success
  | cons last behind =>
      rw [closeGroup] at success
      split at success
      next closes =>
        obtain ⟨rfl, rfl⟩ := Prod.mk.inj (Except.ok.inj success)
        exact ⟨last, rfl, closes, rfl⟩
      next => cases success

def Quotation.closing (form : Quotation) : List Char :=
  if form.here then [form.quote, '@'] else [form.quote]

/-- The parts of a string that was read from behind its opening quote, and its end. -/
def Enclosed (source : Text) (form : Quotation) (glyphs : List Glyph) (parts : List Tree)
    (last : Location) (left : List Glyph) : Prop :=
  ∃ closing, closing ++ left <:+ glyphs ∧ closing.map Glyph.char = form.closing ∧
    last = source.placeOf left ∧
    Parts source (source.placeOf glyphs).byte (source.placeOf (closing ++ left)).byte parts

def TreesLaid (source : Text) (fuel : Nat) : Prop :=
  ∀ glyphs trees left, glyphs <:+ source.glyphs →
    readTrees source.stop fuel glyphs = .ok (trees, left) → Laid source left glyphs trees

def StringLaid (source : Text) (fuel : Nat) : Prop :=
  ∀ form glyphs parts last left, glyphs <:+ source.glyphs →
    readString source.stop fuel form glyphs = .ok (parts, last, left) →
    Enclosed source form glyphs parts last left

section Steps

variable {fuel : Nat} {out : List Tree}

theorem laid_of_linked (laid : TreesLaid source fuel) (within : glyph :: rest <:+ source.glyphs)
    (covers : Covers source tree) (behind : after <:+ rest)
    (span : tree.span = ⟨glyph.span.start, source.placeOf after⟩)
    (success : (do
      let (trees, left) ← readTrees source.stop fuel after
      return (tree.link trees, left)) = .ok (out, left)) :
    Laid source left (glyph :: rest) out := by
  obtain ⟨⟨trees, last⟩, read, linked⟩ := Except.exists_of_bind success
  obtain ⟨rfl, rfl⟩ := Prod.mk.inj (Except.ok.inj linked)
  have withinAfter := (behind.trans (List.suffix_cons _ _)).trans within
  exact (laid after trees last withinAfter read).link within behind span covers

theorem laid_of_string (laid : TreesLaid source fuel) {form : Quotation} {parts : List Tree}
    {last : Location} {opening : List Glyph}
    (within : glyph :: (opening ++ rest) <:+ source.glyphs)
    (enclosed : Enclosed source form rest parts last after)
    (quotes : Quotes (glyph.char :: opening.map Glyph.char) form.closing)
    (success : (do
      let (trees, left) ← readTrees source.stop fuel after
      return (link (.string ⟨glyph.span.start, last⟩ parts) trees, left)) = .ok (out, left)) :
    Laid source left (glyph :: (opening ++ rest)) out := by
  obtain ⟨closing, ending, same, rfl, inside⟩ := enclosed
  have behind : after <:+ opening ++ rest :=
    ((List.suffix_append _ _).trans ending).trans (List.suffix_append _ _)
  rw [← same] at quotes
  have whole : (glyph :: opening) ++ rest <:+ source.glyphs := within
  exact laid_of_linked laid within (covers_string whole ending quotes inside) behind rfl success

theorem trees_laid_step (laid : TreesLaid source fuel) (enclosed : StringLaid source fuel) :
    TreesLaid source (fuel + 1) := by
  intro glyphs out left within success
  cases glyphs with
  | nil =>
      rw [readTrees_nil] at success
      obtain ⟨rfl, rfl⟩ := Prod.mk.inj (Except.ok.inj success)
      exact Laid.nil source _
  | cons glyph rest =>
      have fits := Lead.fits_ofChar glyph.char
      have withinRest : rest <:+ source.glyphs := (List.suffix_cons _ _).trans within
      cases begins glyph rest with
      | closing delimiter lead =>
          rw [readTrees_closing lead] at success
          obtain ⟨rfl, rfl⟩ := Prod.mk.inj (Except.ok.inj success)
          exact Laid.nil source _
      | opening delimiter lead =>
          rw [lead] at fits
          rw [readTrees_opening lead] at success
          obtain ⟨⟨body, ending⟩, read, success⟩ := Except.exists_of_bind success
          obtain ⟨⟨closed, after⟩, close, success⟩ := Except.exists_of_bind success
          obtain ⟨last, rfl, closes, rfl⟩ := exists_of_closeGroup close
          have inside := laid rest body _ withinRest read
          obtain ⟨covers, stop⟩ := covers_group within fits closes inside
          have behind : after <:+ rest := (List.suffix_cons _ _).trans inside.suffix
          exact laid_of_linked laid within covers behind (by rw [← stop]; rfl) success
      | line lead =>
          rw [lead] at fits
          rw [readTrees_line lead] at success
          exact (laid _ _ _ ((List.dropWhile_suffix _).trans withinRest) success).skip_line fits
      | @block next behind angle hash =>
          rw [readTrees_block angle hash] at success
          cases closed : skipBlock? behind with
          | none =>
              rw [closed] at success
              cases success
          | some after =>
              rw [closed] at success
              have suffix := (suffix_of_skipBlock closed).trans (List.suffix_cons next behind)
              exact (laid _ _ _ (suffix.trans withinRest) success).skip_block angle hash closed
      | blank lead =>
          rw [lead] at fits
          rw [readTrees_blank lead] at success
          exact (laid _ _ _ withinRest success).skip_blank fits.1 fits.2
      | @here next behind lead quoted =>
          rw [lead] at fits
          rw [readTrees_here lead quoted] at success
          obtain ⟨⟨parts, last, after⟩, read, success⟩ := Except.exists_of_bind success
          have inside := enclosed _ _ _ _ _ ((List.suffix_cons _ _).trans withinRest) read
          have quotes : Quotes [glyph.char, next.char] [next.char, '@'] := by
            rw [show glyph.char = '@' from fits]
            exact .here quoted
          have whole : glyph :: ([next] ++ behind) <:+ source.glyphs := within
          exact laid_of_string laid whole inside quotes success
      | quote lead =>
          rw [lead] at fits
          rw [readTrees_quote lead] at success
          obtain ⟨⟨parts, last, after⟩, read, success⟩ := Except.exists_of_bind success
          have inside := enclosed _ _ _ _ _ withinRest read
          have whole : glyph :: ([] ++ rest) <:+ source.glyphs := within
          exact laid_of_string laid whole inside (.plain fits) success
      | word lead =>
          rw [lead] at fits
          rw [readTrees_word lead] at success
          obtain ⟨covers, span⟩ := covers_word within fits
          exact laid_of_linked laid within covers (List.dropWhile_suffix _) span success
      | number lead =>
          rw [lead] at fits
          rw [readTrees_number lead] at success
          obtain ⟨covers, span⟩ := covers_number within fits
          exact laid_of_linked laid within covers (List.dropWhile_suffix _) span success
      | symbol alone =>
          rw [readTrees_symbol alone] at success
          have span : glyph.span = ⟨glyph.span.start, source.placeOf rest⟩ := by
            rw [← Text.stop_eq_placeOf within]
          exact laid_of_linked laid within (covers_symbol within alone) (List.suffix_refl _) span
            success

theorem Enclosed.sooner {form : Quotation} {parts : List Tree} {last : Location}
    (enclosed : Enclosed source form after parts last left) (behind : after <:+ glyphs)
    (within : glyphs <:+ source.glyphs) : Enclosed source form glyphs parts last left := by
  obtain ⟨closing, ending, same, place, inside⟩ := enclosed
  refine ⟨closing, ending.trans behind, same, place, ?_⟩
  obtain ⟨front, rfl⟩ := behind
  have sooner := Text.placeOf_le within
  cases parts with
  | nil =>
      rw [Parts] at inside ⊢
      exact Int.le_trans sooner inside
  | cons tree rest =>
      rw [Parts] at inside ⊢
      exact ⟨Int.le_trans sooner inside.1, inside.2⟩

theorem Enclosed.cons {form : Quotation} {parts : List Tree} {last : Location}
    (enclosed : Enclosed source form after parts last left) (behind : after <:+ rest)
    (within : glyph :: rest <:+ source.glyphs) (covers : Covers source tree)
    (span : tree.span = ⟨glyph.span.start, source.placeOf after⟩) :
    Enclosed source form (glyph :: rest) (tree :: parts) last left := by
  obtain ⟨closing, ending, same, place, inside⟩ := enclosed
  have start : tree.span.start = source.placeOf (glyph :: rest) := by rw [span]; rfl
  have stop : tree.span.stop = source.placeOf after := by rw [span]
  refine ⟨closing, (ending.trans behind).trans (List.suffix_cons _ _), same, place, ?_⟩
  rw [Parts, start, stop]
  exact ⟨Int.le_refl _, Text.start_lt_placeOf within behind, covers, inside⟩

theorem enclosed_of_close {form : Quotation} {last : Location} (within : glyph :: rest <:+ source.glyphs)
    (quoted : glyph.char = form.quote) (closes : form.close? glyph rest = some (last, left)) :
    Enclosed source form (glyph :: rest) [] last left := by
  unfold Quotation.close? at closes
  split at closes
  next here =>
    cases rest with
    | nil => cases closes
    | cons next behind =>
        dsimp only at closes
        split at closes
        next marks =>
          simp only [Bool.and_eq_true, decide_eq_true_eq] at marks
          obtain ⟨rfl, rfl⟩ := Prod.mk.inj (Option.some.inj closes)
          have stop := Text.stop_eq_placeOf ((List.suffix_cons _ _).trans within)
          have chars : [glyph, next].map Glyph.char = form.closing := by
            simp [Quotation.closing, here, quoted, marks]
          have inside : Parts source (source.placeOf (glyph :: next :: behind)).byte
              (source.placeOf ([glyph, next] ++ behind)).byte [] := by
            rw [Parts]
            exact Int.le_refl _
          exact ⟨[glyph, next], List.suffix_refl _, chars, stop, inside⟩
        next => cases closes
  next plain =>
    split at closes
    next => cases closes
    next =>
      obtain ⟨rfl, rfl⟩ := Prod.mk.inj (Option.some.inj closes)
      have chars : [glyph].map Glyph.char = form.closing := by
        simp [Quotation.closing, plain, quoted]
      have inside : Parts source (source.placeOf (glyph :: rest)).byte
          (source.placeOf ([glyph] ++ rest)).byte [] := by
        rw [Parts]
        exact Int.le_refl _
      exact ⟨[glyph], List.suffix_refl _, chars, Text.stop_eq_placeOf within, inside⟩

theorem suffix_afterQuote (form : Quotation) (glyphs : List Glyph) :
    form.afterQuote glyphs <:+ glyphs := by
  unfold Quotation.afterQuote
  split
  · exact List.suffix_refl _
  · exact List.tail_suffix _

theorem string_laid_step (laid : TreesLaid source fuel) (enclosed : StringLaid source fuel) :
    StringLaid source (fuel + 1) := by
  intro form glyphs parts last left within success
  cases glyphs with
  | nil =>
      rw [readString_nil] at success
      cases success
  | cons glyph rest =>
      have withinRest : rest <:+ source.glyphs := (List.suffix_cons _ _).trans within
      have continues {after : List Glyph} (behind : after <:+ rest)
          (read : readString source.stop fuel form after = .ok (parts, last, left)) :
          Enclosed source form (glyph :: rest) parts last left :=
        (enclosed _ _ _ _ _ (behind.trans withinRest) read).sooner
          (behind.trans (List.suffix_cons _ _)) within
      cases goes form glyph rest with
      | escape backtick double =>
          rw [readString_escape backtick double] at success
          exact continues (List.tail_suffix _) success
      | close plain quoted closes =>
          rw [readString_close plain quoted closes] at success
          obtain ⟨rfl, same⟩ := Prod.mk.inj (Except.ok.inj success)
          obtain ⟨rfl, rfl⟩ := Prod.mk.inj same
          exact enclosed_of_close within quoted closes
      | stay plain quoted stays =>
          rw [readString_stay plain quoted stays] at success
          exact continues (suffix_afterQuote form rest) success
      | @group next behind delimiter dollar double lead round =>
          have fits := Lead.fits_ofChar next.char
          rw [lead] at fits
          rw [readString_group dollar double lead round] at success
          obtain ⟨⟨body, ending⟩, read, success⟩ := Except.exists_of_bind success
          obtain ⟨⟨closed, after⟩, close, success⟩ := Except.exists_of_bind success
          obtain ⟨⟨more, final, rest⟩, readMore, success⟩ := Except.exists_of_bind success
          obtain ⟨rfl, same⟩ := Prod.mk.inj (Except.ok.inj success)
          obtain ⟨rfl, rfl⟩ := Prod.mk.inj same
          obtain ⟨bracket, rfl, closes, rfl⟩ := exists_of_closeGroup close
          have inside := laid behind body _ ((List.suffix_cons _ _).trans withinRest) read
          obtain ⟨covers, stop⟩ := covers_group withinRest fits closes inside
          have suffix : after <:+ behind := (List.suffix_cons _ _).trans inside.suffix
          have tail := enclosed _ _ _ _ _ (suffix.trans ((List.suffix_cons _ _).trans withinRest)) readMore
          exact (tail.cons suffix withinRest covers (by rw [← stop]; rfl)).sooner (List.suffix_cons _ _)
            within
      | @word next behind dollar double lead =>
          have fits := Lead.fits_ofChar next.char
          rw [lead] at fits
          rw [readString_word dollar double lead] at success
          obtain ⟨⟨more, final, rest⟩, readMore, success⟩ := Except.exists_of_bind success
          obtain ⟨rfl, same⟩ := Prod.mk.inj (Except.ok.inj success)
          obtain ⟨rfl, rfl⟩ := Prod.mk.inj same
          obtain ⟨covers, span⟩ := covers_word withinRest fits
          have suffix : (readWord next behind).2 <:+ behind := List.dropWhile_suffix _
          have tail := enclosed _ _ _ _ _ (suffix.trans ((List.suffix_cons _ _).trans withinRest)) readMore
          exact (tail.cons suffix withinRest covers span).sooner (List.suffix_cons _ _) within
      | pass plain unquoted bare =>
          rw [readString_pass plain unquoted bare] at success
          exact continues (List.suffix_refl _) success

end Steps

theorem readers_laid (source : Text) (fuel : Nat) :
    TreesLaid source fuel ∧ StringLaid source fuel := by
  induction fuel with
  | zero =>
      constructor
      · intro glyphs trees left _ success
        rw [readTrees] at success
        obtain ⟨rfl, rfl⟩ := Prod.mk.inj (Except.ok.inj success)
        exact Laid.nil source _
      · intro form glyphs parts last left _ success
        rw [readString] at success
        cases success
  | succ fuel induction =>
      exact ⟨trees_laid_step induction.1 induction.2, string_laid_step induction.1 induction.2⟩

/-- The lexemes of a text that can be read follow one another from its first byte to its last, at
every depth, with nothing but blanks and comments between them. -/
theorem level_of_read {source : Text} {trees : List Tree} (accepted : read source = .ok trees) :
    Level source 0 source.length trees := by
  rw [read] at accepted
  split at accepted
  next => cases accepted
  next found outcome =>
    obtain rfl := Except.ok.inj accepted
    have laid := (readers_laid source _).1 _ _ _ (List.suffix_refl _) outcome
    have level := laid.level (List.suffix_refl _)
    rw [Text.placeOf_glyphs] at level
    exact level
  next => cases accepted

/-- A text with a group, an interpolation, a carriage return and a comment. -/
def clipping : Text := "f\x7b\"$x\"\x7d\r <# c #>"

def lineSpan (start stop : Int) : Span := ⟨⟨start, 1, start + 1⟩, ⟨stop, 1, stop + 1⟩⟩

theorem clipping_level : Level clipping 0 16
    [.word (lineSpan 0 1) .joined,
      .group .brace (lineSpan 1 7) [.string (lineSpan 2 6) [.word (lineSpan 4 5) .alone]]] :=
  level_of_read (by rfl)

end ScopeLint.Tree
