import Mathlib.Data.List.Forall2
import ScopeLint.Proofs.Source.Respacing
import ScopeLint.Proofs.Tree.Agreement
import ScopeLint.Proofs.Tree.Coverage

/-!
Glyphs of a respaced text, followed along the machine with a stack, and lexemes that are alike. Every
glyph has a counterpart, but a comment that is skipped in code may be any number of spaces instead.
A comment cannot begin inside a string, so what is open decides where that is allowed.
-/

namespace ScopeLint.Tree

open Machine

def skips : List Open → Glyph → List Glyph → Bool
  | .string _ :: _, _, _ => false
  | _, glyph, rest => glyph.char = '#' || (glyph.char = '<' && nextIs '#' rest)

/-- Glyphs of a text from a point on where the given brackets and strings are open, and those of a
respaced text. Behind a fault nothing is read. -/
inductive Respaced (pair : Respacing) : List Open → List Glyph → List Glyph → Prop
  | nil {stack : List Open} : Respaced pair stack [] []
  | stuck {stack : List Open} {glyph : Glyph} {rest twins : List Glyph} {error : SyntaxError}
      (stops : step stack glyph rest = .error error)
      (same : List.Forall₂ pair.Counterpart (glyph :: rest) twins) :
      Respaced pair stack (glyph :: rest) twins
  | moved {stack after : List Open} {glyph : Glyph} {rest passed left twins others : List Glyph}
      (moves : step stack glyph rest = .ok (after, left)) (split : glyph :: rest = passed ++ left)
      (same : List.Forall₂ pair.Counterpart passed twins) (more : Respaced pair after left others) :
      Respaced pair stack (glyph :: rest) (twins ++ others)
  | blank {stack after : List Open} {glyph : Glyph} {rest left blanks others : List Glyph}
      (moves : step stack glyph rest = .ok (after, left)) (comment : skips stack glyph rest = true)
      (nonempty : blanks ≠ []) (spaces : ∀ blank ∈ blanks, blank.char = ' ')
      (more : Respaced pair after left others) : Respaced pair stack (glyph :: rest) (blanks ++ others)

variable {pair : Respacing} {stack after : List Open} {glyph next : Glyph}
  {glyphs rest left twins : List Glyph}

theorem skips_of_unmarked (plain : glyph.char ∉ marks) : skips stack glyph rest = false := by
  have hash : glyph.char ≠ '#' := fun same => plain (same ▸ by decide)
  have angle : glyph.char ≠ '<' := fun same => plain (same ▸ by decide)
  unfold skips
  split <;> simp [hash, angle]

theorem skips_of_ne (hash : glyph.char ≠ '#') (angle : glyph.char ≠ '<') :
    skips stack glyph rest = false := by
  unfold skips
  split <;> simp [hash, angle]

theorem skips_of_bracket {delimiter : Delimiter}
    (bracket : glyph.char = delimiter.opening ∨ glyph.char = delimiter.closing) :
    skips stack glyph rest = false := by
  apply skips_of_ne
  · rcases bracket with same | same <;> rw [same] <;> cases delimiter <;> decide
  · rcases bracket with same | same <;> rw [same] <;> cases delimiter <;> decide

theorem skips_of_symbol (alone : SymbolAt glyph rest) : skips stack glyph rest = false := by
  rcases alone with line | ⟨lone, plain⟩
  · exact skips_of_ne (by rw [line]; decide) (by rw [line]; decide)
  · have block : (glyph.char = '<' && nextIs '#' rest) = false := by
      cases rest with
      | nil => simp [nextIs]
      | cons next behind => simpa [nextIs] using (plain next rfl).1
    unfold skips
    split
    next => rfl
    next => simpa [lone.notComment] using block

/-- A comment is skipped in code, and it begins with its mark. -/
theorem mark_of_skips (comment : skips stack glyph rest = true) :
    InCode stack ∧ (glyph.char = '#' ∨
      glyph.char = '<' ∧ ∃ next behind, rest = next :: behind ∧ next.char = '#') := by
  unfold skips at comment
  split at comment
  next => cases comment
  next outside =>
    refine ⟨?_, ?_⟩
    · unfold InCode
      split
      next form below => exact outside form below rfl
      next => trivial
    · simp only [nextIs, Bool.or_eq_true, Bool.and_eq_true, decide_eq_true_eq] at comment
      rcases comment with hash | ⟨angle, hash⟩
      · exact .inl hash
      · obtain ⟨next, head, same⟩ := Option.map_eq_some_iff.mp hash
        obtain ⟨behind, split⟩ := List.head?_eq_some_iff.mp head
        exact .inr ⟨angle, next, behind, split, same⟩

theorem inString_suffix (form : Quotation) (below : List Open) (glyph : Glyph) (rest : List Glyph) :
    (inString form below glyph rest).2 <:+ rest := by
  unfold inString
  repeat' split
  all_goals first
    | exact List.suffix_refl _
    | exact List.tail_suffix _
    | exact List.suffix_cons _ _

theorem step_suffix (moves : step stack glyph rest = .ok (after, left)) : left <:+ rest := by
  unfold step at moves
  split at moves
  next form below =>
    obtain ⟨-, rfl⟩ := Prod.mk.inj (Except.ok.inj moves)
    exact inString_suffix form below glyph rest
  next =>
    unfold inCode at moves
    repeat' split at moves
    all_goals simp only [Except.ok.injEq, Prod.mk.injEq, reduceCtorEq] at moves
    all_goals obtain ⟨-, rfl⟩ := moves
    all_goals first
      | exact List.suffix_refl _
      | exact List.dropWhile_suffix _
      | exact List.suffix_cons _ _
      | apply List.IsSuffix.trans _ (List.suffix_cons _ _)
    exact suffix_of_skipBlock ((pastMark_eq_skipBlock _).symm.trans (by assumption))

namespace Respaced

theorem of_counterparts (stack : List Open) {glyphs twins : List Glyph}
    (same : List.Forall₂ pair.Counterpart glyphs twins) : Respaced pair stack glyphs twins := by
  match glyphs, same with
  | [], .nil => exact .nil
  | glyph :: rest, same =>
      cases moves : step stack glyph rest with
      | error error => exact .stuck moves same
      | ok value =>
          have behind := step_suffix moves
          obtain ⟨passed, split⟩ := behind.trans (List.suffix_cons glyph rest)
          rw [← List.take_append_drop passed.length twins]
          have front := List.forall₂_take passed.length same
          have later := List.forall₂_drop passed.length same
          rw [← split, List.take_left] at front
          rw [← split, List.drop_left] at later
          have shorter := behind.length_le
          exact .moved moves split.symm front (of_counterparts value.1 later)
termination_by glyphs.length

theorem of_itself {source : Text} {holds : Location → Prop}
    {marks : ∀ left, left <:+ source.glyphs → holds (source.placeOf left)} (stack : List Open) :
    Respaced (.itself source holds marks) stack source.glyphs source.glyphs := by
  apply of_counterparts
  apply List.forall₂_same.mpr
  intro glyph member
  obtain ⟨before, left, split⟩ := List.append_of_mem member
  exact Respacing.counterpart_itself ⟨before, split.symm⟩

/-- A respaced text goes on with a counterpart, or with a space where a comment begins. -/
theorem exists_head (respaced : Respaced pair stack (glyph :: rest) twins) :
    ∃ twin others, twins = twin :: others ∧
      (pair.Counterpart glyph twin ∨ skips stack glyph rest = true ∧ twin.char = ' ') := by
  cases respaced with
  | stuck stops same =>
      cases same with
      | cons first others => exact ⟨_, _, rfl, .inl first⟩
  | @moved _ _ _ _ passed left _ others moves split same more =>
      have shorter := step_length moves
      cases same with
      | nil =>
          rw [List.nil_append] at split
          rw [← split, List.length_cons] at shorter
          omega
      | cons first later =>
          obtain ⟨rfl, -⟩ := List.cons.inj split
          exact ⟨_, _, rfl, .inl first⟩
  | @blank _ _ _ _ _ blanks others moves comment some spaces more =>
      cases blanks with
      | nil => exact absurd rfl some
      | cons first later =>
          exact ⟨first, later ++ others, rfl, .inr ⟨comment, spaces first List.mem_cons_self⟩⟩

theorem exists_counterpart (respaced : Respaced pair stack (glyph :: rest) twins)
    (keeps : skips stack glyph rest = false) :
    ∃ twin others, twins = twin :: others ∧ pair.Counterpart glyph twin := by
  obtain ⟨twin, others, rfl, same | ⟨comment, -⟩⟩ := respaced.exists_head
  · exact ⟨twin, others, rfl, same⟩
  · rw [keeps] at comment
    cases comment

/-- What the machine passes over is kept, or it is a comment and becomes blank. -/
theorem of_step (respaced : Respaced pair stack (glyph :: rest) twins)
    (moves : step stack glyph rest = .ok (after, left)) :
    (∃ passed kept others, glyph :: rest = passed ++ left ∧ twins = kept ++ others ∧
      List.Forall₂ pair.Counterpart passed kept ∧ Respaced pair after left others) ∨
    skips stack glyph rest = true ∧ ∃ blanks others, twins = blanks ++ others ∧ blanks ≠ [] ∧
      (∀ blank ∈ blanks, blank.char = ' ') ∧ Respaced pair after left others := by
  cases respaced with
  | stuck stops same =>
      rw [moves] at stops
      cases stops
  | moved moved split same more =>
      obtain ⟨rfl, rfl⟩ := Prod.mk.inj (Except.ok.inj (moves.symm.trans moved))
      exact .inl ⟨_, _, _, split, rfl, same, more⟩
  | blank moved comment some spaces more =>
      obtain ⟨rfl, rfl⟩ := Prod.mk.inj (Except.ok.inj (moves.symm.trans moved))
      exact .inr ⟨comment, _, _, rfl, some, spaces, more⟩

theorem one (respaced : Respaced pair stack (glyph :: rest) twins)
    (moves : step stack glyph rest = .ok (after, rest)) (keeps : skips stack glyph rest = false) :
    ∃ twin others, twins = twin :: others ∧ pair.Counterpart glyph twin ∧
      Respaced pair after rest others := by
  rcases respaced.of_step moves with ⟨passed, kept, others, split, rfl, same, more⟩ | ⟨comment, -⟩
  · obtain rfl : [glyph] = passed := List.append_cancel_right split
    cases same with
    | cons first none =>
        cases none
        exact ⟨_, _, rfl, first, more⟩
  · rw [keeps] at comment
    cases comment

theorem two (respaced : Respaced pair stack (glyph :: next :: rest) twins)
    (moves : step stack glyph (next :: rest) = .ok (after, rest))
    (keeps : skips stack glyph (next :: rest) = false) :
    ∃ twin nextTwin others, twins = twin :: nextTwin :: others ∧ pair.Counterpart glyph twin ∧
      pair.Counterpart next nextTwin ∧ Respaced pair after rest others := by
  rcases respaced.of_step moves with ⟨passed, kept, others, split, rfl, same, more⟩ | ⟨comment, -⟩
  · obtain rfl : [glyph, next] = passed := List.append_cancel_right split
    cases same with
    | cons first later =>
        cases later with
        | cons second none =>
            cases none
            exact ⟨_, _, _, rfl, first, second, more⟩
  · rw [keeps] at comment
    cases comment

/-- A run of characters without a meaning ends where its counterpart does. -/
theorem run {test : Char → Bool} (plain : ∀ char, test char = true → char ∉ marks)
    (visible : test ' ' = false)
    (unmoved : ∀ glyph rest, glyph.char ∉ marks → step stack glyph rest = .ok (stack, rest))
    (respaced : Respaced pair stack glyphs twins) :
    List.Forall₂ pair.Counterpart (glyphs.takeWhile fun glyph => test glyph.char)
        (twins.takeWhile fun glyph => test glyph.char) ∧
      Respaced pair stack (glyphs.dropWhile fun glyph => test glyph.char)
        (twins.dropWhile fun glyph => test glyph.char) := by
  induction glyphs generalizing twins with
  | nil =>
      cases respaced
      exact ⟨.nil, .nil⟩
  | cons glyph rest induction =>
      cases holds : test glyph.char with
      | true =>
          have free := plain glyph.char holds
          obtain ⟨twin, others, rfl, same, more⟩ :=
            respaced.one (unmoved glyph rest free) (skips_of_unmarked free)
          have holdsTwin : test twin.char = true := same.char ▸ holds
          obtain ⟨taken, dropped⟩ := induction more
          simp only [List.takeWhile_cons, List.dropWhile_cons, holds, holdsTwin, if_true]
          exact ⟨.cons same taken, dropped⟩
      | false =>
          have head := respaced.exists_head
          obtain ⟨twin, others, rfl, same⟩ := head
          have fails : test twin.char = false := by
            rcases same with same | ⟨-, space⟩
            · rw [same.char, holds]
            · rw [space, visible]
          simp only [List.takeWhile_cons, List.dropWhile_cons, holds, fails, Bool.false_eq_true,
            if_false]
          exact ⟨.nil, respaced⟩

end Respaced

theorem reads_runSpan {first twin : Glyph} {run runTwin leftTwin : List Glyph}
    (within : first :: (run ++ left) <:+ pair.source.glyphs)
    (withinTwin : twin :: (runTwin ++ leftTwin) <:+ pair.other.glyphs)
    (same : pair.Counterpart first twin) (runs : List.Forall₂ pair.Counterpart run runTwin)
    (inLine : ∀ glyph ∈ first :: run, glyph.char ≠ '\n') :
    pair.Reads (runSpan first run) (runSpan twin runTwin) := by
  induction runs generalizing first twin with
  | nil => exact ⟨same.toSpans, same.text (inLine first List.mem_cons_self)⟩
  | @cons next nextTwin run runTwin sameNext runs induction =>
      have reads := induction ((List.suffix_cons _ _).trans within)
        ((List.suffix_cons _ _).trans withinTwin) sameNext
        fun glyph member => inLine glyph (List.mem_cons_of_mem _ member)
      have touches : first.span.stop = next.span.start := Text.stop_eq_placeOf within
      have touchesTwin : twin.span.stop = nextTwin.span.start := Text.stop_eq_placeOf withinTwin
      exact ⟨same.toSpans.through reads.toSpans,
        (same.text (inLine first List.mem_cons_self)).through reads.text touches touchesTwin⟩

theorem Respaced.reads_run {twin : Glyph} {others : List Glyph} {test : Char → Bool}
    (plain : ∀ char, test char = true → char ∉ marks) (visible : test ' ' = false)
    (line : test '\n' = false)
    (unmoved : ∀ glyph rest, glyph.char ∉ marks → step stack glyph rest = .ok (stack, rest))
    (within : glyph :: rest <:+ pair.source.glyphs) (withinTwin : twin :: others <:+ pair.other.glyphs)
    (same : pair.Counterpart glyph twin) (inLine : glyph.char ≠ '\n')
    (respaced : Respaced pair stack rest others) :
    pair.Reads (runSpan glyph (rest.takeWhile fun glyph => test glyph.char))
        (runSpan twin (others.takeWhile fun glyph => test glyph.char)) ∧
      Respaced pair stack (rest.dropWhile fun glyph => test glyph.char)
        (others.dropWhile fun glyph => test glyph.char) := by
  obtain ⟨taken, dropped⟩ := respaced.run plain visible unmoved
  let inside := fun glyph : Glyph => test glyph.char
  have split : rest.takeWhile inside ++ rest.dropWhile inside = rest :=
    List.takeWhile_append_dropWhile
  have splitTwin : others.takeWhile inside ++ others.dropWhile inside = others :=
    List.takeWhile_append_dropWhile
  rw [← split] at within
  rw [← splitTwin] at withinTwin
  refine ⟨reads_runSpan within withinTwin same taken ?_, dropped⟩
  intro next member newline
  rcases List.mem_cons.mp member with rfl | member
  · exact inLine newline
  · have holds := List.mem_takeWhile_imp member
    simp [newline, line] at holds

variable {twin : Glyph} {others leftTwins : List Glyph}

theorem nextIs_counterpart (char : Char) (same : List.Forall₂ pair.Counterpart glyphs twins) :
    nextIs char twins = nextIs char glyphs := by
  cases same with
  | nil => rfl
  | cons first later => simp [nextIs, first.char]

theorem skipBlock_counterpart (same : List.Forall₂ pair.Counterpart glyphs twins)
    (unclosed : skipBlock? glyphs = none) : skipBlock? twins = none := by
  induction same with
  | nil => rfl
  | cons first later induction =>
      rw [skipBlock?] at unclosed ⊢
      rw [first.char, nextIs_counterpart '>' later]
      split at unclosed
      next => cases unclosed
      next opens =>
        rw [if_neg opens]
        exact induction unclosed

theorem skipBlock_kept {comment kept : List Glyph}
    (same : List.Forall₂ pair.Counterpart comment kept)
    (closed : skipBlock? (comment ++ left) = some left) :
    skipBlock? (kept ++ leftTwins) = some leftTwins := by
  have shorter {glyphs : List Glyph} (found : skipBlock? glyphs = some left) :
      left.length < glyphs.length :=
    pastMark_length ((pastMark_eq_skipBlock glyphs).trans found)
  induction same with
  | nil =>
      have never := shorter closed
      rw [List.nil_append] at never
      omega
  | @cons glyph twin comment kept first later induction =>
      cases later with
      | nil =>
          rw [List.singleton_append, skipBlock?] at closed
          split at closed
          next ends =>
            cases left with
            | nil => simp [nextIs] at ends
            | cons next behind => exact absurd (Option.some.inj closed) (List.ne_cons_self)
          next =>
            have never := shorter closed
            omega
      | @cons next nextTwin comment kept second later =>
          rw [List.cons_append, skipBlock?] at closed ⊢
          have marks : (twin.char = '#' && nextIs '>' (nextTwin :: kept ++ leftTwins)) =
              (glyph.char = '#' && nextIs '>' (next :: comment ++ left)) := by
            simp [nextIs, first.char, second.char]
          rw [marks]
          split at closed
          next ends =>
            rw [if_pos ends]
            have empty : comment = [] := by
              have length := congrArg List.length (Option.some.inj closed)
              simpa using length
            subst empty
            cases later
            rfl
          next goes =>
            rw [if_neg goes]
            exact induction closed

theorem inLine_of_skipLine {passed : List Glyph} (ends : skipLine (passed ++ left) = left) :
    ∀ glyph ∈ passed, glyph.char ≠ '\n' := by
  let inside := fun next : Glyph => decide (next.char ≠ '\n')
  have whole : (passed ++ left).takeWhile inside ++ skipLine (passed ++ left) = passed ++ left :=
    List.takeWhile_append_dropWhile
  rw [ends] at whole
  intro glyph member
  rw [← List.append_cancel_right whole] at member
  simpa [inside] using List.mem_takeWhile_imp member

theorem skipLine_kept {comment kept : List Glyph}
    (same : List.Forall₂ pair.Counterpart comment kept)
    (inLine : ∀ glyph ∈ comment, glyph.char ≠ '\n') (ends : ∀ next ∈ others.head?, next.char = '\n') :
    skipLine (kept ++ others) = others := by
  induction same with
  | nil =>
      cases others with
      | nil => rfl
      | cons next behind => simp [skipLine, ends next rfl]
  | cons first later induction =>
      have inside := induction fun glyph member => inLine glyph (List.mem_cons_of_mem _ member)
      have visible := inLine _ List.mem_cons_self
      rw [← first.char] at visible
      rw [skipLine, List.cons_append, List.dropWhile_cons, if_pos (by simpa using visible)]
      exact inside

/-- Neither a counterpart nor a space makes something else of a symbol in front of it. -/
theorem Respaced.symbolAt (respaced : Respaced pair stack rest others) (alone : SymbolAt glyph rest)
    (same : pair.Counterpart glyph twin) : SymbolAt twin others := by
  unfold SymbolAt
  rw [same.char]
  refine alone.imp id fun ⟨lone, plain⟩ => ⟨lone, ?_⟩
  intro next head
  cases rest with
  | nil =>
      cases respaced
      cases head
  | cons first behind =>
      obtain ⟨nextTwin, behindTwin, rfl, sameNext | ⟨-, space⟩⟩ := respaced.exists_head
      · obtain rfl := Option.some.inj head
        rw [sameNext.char]
        exact plain first rfl
      · obtain rfl := Option.some.inj head
        simp [space, IsQuote]

structure FormAlike (pair : Respacing) (form twin : Quotation) : Prop where
  start : pair.place form.start twin.start
  quote : twin.quote = form.quote
  here : twin.here = form.here

theorem Respaced.close {form formTwin : Quotation} {last : Location} (forms : FormAlike pair form formTwin)
    (quotes : IsQuote form.quote)
    (moves : step (.string form :: stack) glyph rest = .ok (stack, left))
    (closes : form.close? glyph rest = some (last, left))
    (respaced : Respaced pair (.string form :: stack) (glyph :: rest) twins) :
    ∃ twin others, twins = twin :: others ∧ pair.Counterpart glyph twin ∧
      ∃ lastTwin leftTwins, formTwin.close? twin others = some (lastTwin, leftTwins) ∧
        pair.place last lastTwin ∧ Respaced pair stack left leftTwins := by
  unfold Quotation.close? at closes ⊢
  rw [forms.here, forms.quote]
  split at closes
  next here =>
    cases rest with
    | nil => cases closes
    | cons next behind =>
        dsimp only at closes
        split at closes
        next marks =>
          obtain ⟨rfl, rfl⟩ := Prod.mk.inj (Option.some.inj closes)
          simp only [Bool.and_eq_true, decide_eq_true_eq] at marks
          obtain ⟨twin, nextTwin, others, rfl, same, sameNext, more⟩ := respaced.two moves rfl
          refine ⟨twin, _, rfl, same, nextTwin.span.stop, others, ?_, sameNext.stop, more⟩
          simp [here, same.col, sameNext.char, marks]
        next => cases closes
  next plain =>
    split at closes
    next => cases closes
    next single =>
      obtain ⟨rfl, rfl⟩ := Prod.mk.inj (Option.some.inj closes)
      obtain ⟨twin, others, rfl, same, more⟩ := respaced.one moves rfl
      refine ⟨twin, others, rfl, same, twin.span.stop, others, ?_, same.stop, more⟩
      have singleTwin : nextIs form.quote others = false := by
        cases rest with
        | nil =>
            cases more
            rfl
        | cons next behind =>
            obtain ⟨nextTwin, behindTwin, rfl, sameNext | ⟨-, space⟩⟩ := more.exists_head
            · simpa [nextIs, sameNext.char] using single
            · rcases quotes with quote | quote <;> simp [nextIs, space, quote]
      simp [plain, singleTwin]

theorem Respaced.stay {form formTwin : Quotation} (forms : FormAlike pair form formTwin)
    (moves : step (.string form :: stack) glyph rest =
      .ok (.string form :: stack, form.afterQuote rest))
    (stays : form.close? glyph rest = none)
    (respaced : Respaced pair (.string form :: stack) (glyph :: rest) twins) :
    ∃ twin others, twins = twin :: others ∧ pair.Counterpart glyph twin ∧
      formTwin.close? twin others = none ∧
      Respaced pair (.string form :: stack) (form.afterQuote rest) (formTwin.afterQuote others) := by
  unfold Quotation.close? at stays ⊢
  unfold Quotation.afterQuote at moves ⊢
  rw [forms.here, forms.quote]
  split at stays
  next here =>
    rw [if_pos here] at moves
    obtain ⟨twin, others, rfl, same, more⟩ := respaced.one moves rfl
    refine ⟨twin, others, rfl, same, ?_, by rw [if_pos here, if_pos here]; exact more⟩
    cases rest with
    | nil =>
        cases more
        simp [here]
    | cons next behind =>
        obtain ⟨nextTwin, behindTwin, rfl, sameNext⟩ := more.exists_counterpart rfl
        simpa [here, same.col, sameNext.char] using stays
  next plain =>
    rw [if_neg plain] at moves
    split at stays
    next doubled =>
      cases rest with
      | nil => simp [nextIs] at doubled
      | cons next behind =>
          obtain ⟨twin, nextTwin, others, rfl, same, sameNext, more⟩ := respaced.two moves rfl
          refine ⟨twin, _, rfl, same, ?_, by rw [if_neg plain, if_neg plain]; exact more⟩
          simpa [plain, nextIs, sameNext.char] using doubled
    next => cases stays

def Touches (tree : Tree) (trees : List Tree) : Prop :=
  ∃ next ∈ trees.head?, tree.span.stop = next.span.start

theorem not_touches_nil (tree : Tree) : ¬ Touches tree [] := by
  rintro ⟨next, first, -⟩
  cases first

theorem touches_cons (tree next : Tree) (rest : List Tree) :
    Touches tree (next :: rest) ↔ tree.span.stop = next.span.start := by
  simp [Touches]

theorem touches_withSpacing (spacing : Spacing) (tree : Tree) (trees : List Tree) :
    Touches (tree.withSpacing spacing) trees ↔ Touches tree trees := by
  rw [Touches, Touches, span_withSpacing]

mutual

/-- Lexemes of the same kind at places that stand for each other, over the same bytes where these
can matter, and with parts that are alike. -/
inductive Alike (pair : Respacing) : Tree → Tree → Prop
  | word {span twin : Span} {spacing : Spacing} (reads : pair.Reads span twin) :
      Alike pair (.word span spacing) (.word twin spacing)
  | symbol {char : Char} {span twin : Span} {spacing : Spacing} (spans : pair.Spans span twin)
      (text : char ≠ '\n' → pair.SameText span twin) :
      Alike pair (.symbol char span spacing) (.symbol char twin spacing)
  | number {span twin : Span} (reads : pair.Reads span twin) :
      Alike pair (.number span) (.number twin)
  | string {span twin : Span} {parts others : List Tree} (spans : pair.Spans span twin)
      (inside : PartsAlike pair parts others) : Alike pair (.string span parts) (.string twin others)
  | group {delimiter : Delimiter} {span twin : Span} {body others : List Tree}
      (spans : pair.Spans span twin) (inside : StreamAlike pair body others) :
      Alike pair (.group delimiter span body) (.group delimiter twin others)

/-- Streams whose lexemes are alike and touch one another in the same places. -/
inductive StreamAlike (pair : Respacing) : List Tree → List Tree → Prop
  | nil : StreamAlike pair [] []
  | cons {tree twin : Tree} {rest others : List Tree} (alike : Alike pair tree twin)
      (touch : Touches tree rest ↔ Touches twin others)
      (joined : tree.spacing = .joined → Touches tree rest) (more : StreamAlike pair rest others) :
      StreamAlike pair (tree :: rest) (twin :: others)

inductive PartsAlike (pair : Respacing) : List Tree → List Tree → Prop
  | nil : PartsAlike pair [] []
  | cons {tree twin : Tree} {rest others : List Tree} (alike : Alike pair tree twin)
      (more : PartsAlike pair rest others) : PartsAlike pair (tree :: rest) (twin :: others)

end

namespace Alike

variable {tree twin : Tree}

theorem spans (alike : Alike pair tree twin) : pair.Spans tree.span twin.span := by
  cases alike with
  | word reads => exact reads.toSpans
  | symbol spans text => exact spans
  | number reads => exact reads.toSpans
  | string spans inside => exact spans
  | group spans inside => exact spans

theorem spacing_eq (alike : Alike pair tree twin) : twin.spacing = tree.spacing := by
  cases alike <;> rfl

theorem withSpacing (alike : Alike pair tree twin) (spacing : Spacing) :
    Alike pair (tree.withSpacing spacing) (twin.withSpacing spacing) := by
  cases alike with
  | word reads => exact .word reads
  | symbol spans text => exact .symbol spans text
  | number reads => exact .number reads
  | string spans inside => exact .string spans inside
  | group spans inside => exact .group spans inside

end Alike

theorem StreamAlike.link {tree twin : Tree} {trees others : List Tree}
    (stream : StreamAlike pair trees others) (alike : Alike pair tree twin)
    (touch : Touches tree trees ↔ Touches twin others) :
    StreamAlike pair (tree.link trees) (twin.link others) := by
  obtain ⟨spacing, linked, joined⟩ := exists_link tree trees
  obtain ⟨spacingTwin, linkedTwin, joinedTwin⟩ := exists_link twin others
  have same : spacing = spacingTwin := by
    have both := joined.trans (touch.trans joinedTwin.symm)
    cases spacing <;> cases spacingTwin <;> simp_all
  rw [linked, linkedTwin, ← same]
  refine .cons (alike.withSpacing spacing) ?_ ?_ stream
  · rw [touches_withSpacing, touches_withSpacing]
    exact touch
  · intro touching
    rw [touches_withSpacing]
    exact joined.mp ((spacing_withSpacing spacing tree).mp touching).2

theorem StreamAlike.drop {trees others : List Tree} (stream : StreamAlike pair trees others)
    (count : Nat) : StreamAlike pair (trees.drop count) (others.drop count) := by
  induction count generalizing trees others with
  | zero => exact stream
  | succ count induction =>
      cases stream with
      | nil => exact .nil
      | cons alike touch joined more => exact induction more

end ScopeLint.Tree
