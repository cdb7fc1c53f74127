import ScopeLint.Proofs.Source.Shift
import ScopeLint.Proofs.Tree.Agreement
import ScopeLint.Proofs.Tree.Coverage

/-!
The reader on a text that is moved down. It reads the same lexemes at places that are moved along,
or stops with the same fault, because only the columns of a text decide what it means. Nor does it
matter how much fuel there is, as long as there is more of it than glyphs.
-/

namespace ScopeLint.Tree

open Machine (TreesFollow StringFollows readers_follow Follows)

mutual

def shift (offset : Offset) : Tree → Tree
  | word span spacing => word (span.shift offset) spacing
  | symbol char span spacing => symbol char (span.shift offset) spacing
  | number span => number (span.shift offset)
  | string span parts => string (span.shift offset) (shiftAll offset parts)
  | group delimiter span body => group delimiter (span.shift offset) (shiftAll offset body)

def shiftAll (offset : Offset) : List Tree → List Tree
  | [] => []
  | tree :: rest => tree.shift offset :: shiftAll offset rest

end

def Quotation.shift (offset : Offset) (form : Quotation) : Quotation :=
  { form with start := form.start.shift offset }

variable {offset : Offset} {stop : Location} {glyph next : Glyph} {glyphs rest left : List Glyph}
  {tree : Tree} {trees : List Tree} {fuel : Nat}

theorem span_shift (tree : Tree) : (tree.shift offset).span = tree.span.shift offset := by
  cases tree <;> simp only [shift, span]

mutual

theorem shift_zero (tree : Tree) : tree.shift .zero = tree := by
  cases tree with
  | string span parts => simp only [shift, Span.shift_zero, shiftAll_zero parts]
  | group delimiter span body => simp only [shift, Span.shift_zero, shiftAll_zero body]
  | word | symbol | number => simp only [shift, Span.shift_zero]

theorem shiftAll_zero (trees : List Tree) : shiftAll .zero trees = trees := by
  cases trees with
  | nil => rfl
  | cons tree rest => rw [shiftAll, shift_zero tree, shiftAll_zero rest]

end

theorem shiftAll_drop (count : Nat) (trees : List Tree) :
    (shiftAll offset trees).drop count = shiftAll offset (trees.drop count) := by
  induction trees generalizing count with
  | nil => simp only [shiftAll, List.drop_nil]
  | cons tree rest induction =>
      cases count with
      | zero => rfl
      | succ count => simp only [shiftAll, List.drop_succ_cons, induction]

theorem withSpacing_shift (spacing : Spacing) (tree : Tree) :
    (tree.shift offset).withSpacing spacing = (tree.withSpacing spacing).shift offset := by
  cases tree <;> simp only [shift, withSpacing]

theorem link_shift (tree : Tree) (trees : List Tree) :
    link (tree.shift offset) (shiftAll offset trees) = shiftAll offset (link tree trees) := by
  cases trees with
  | nil => simp only [link, shiftAll, withSpacing_shift]
  | cons next rest =>
      have touches : (tree.shift offset).span.stop = (next.shift offset).span.start ↔
          tree.span.stop = next.span.start := by
        rw [span_shift, span_shift]
        exact Location.shift_inj _ _
      simp only [link, shiftAll, withSpacing_shift, touches]

theorem takeWhile_shift (test : Char → Bool) (glyphs : List Glyph) :
    (glyphs.map (Glyph.shift offset)).takeWhile (fun glyph => test glyph.char) =
      (glyphs.takeWhile fun glyph => test glyph.char).map (Glyph.shift offset) := by
  rw [List.takeWhile_map]
  rfl

theorem dropWhile_shift (test : Char → Bool) (glyphs : List Glyph) :
    (glyphs.map (Glyph.shift offset)).dropWhile (fun glyph => test glyph.char) =
      (glyphs.dropWhile fun glyph => test glyph.char).map (Glyph.shift offset) := by
  rw [List.dropWhile_map]
  rfl

theorem runSpan_shift (glyph : Glyph) (run : List Glyph) :
    runSpan (glyph.shift offset) (run.map (Glyph.shift offset)) = (runSpan glyph run).shift offset := by
  simp only [runSpan, Glyph.shift, Span.shift, Glyph.stopOf_shift]

theorem readWord_shift (glyph : Glyph) (rest : List Glyph) :
    readWord (glyph.shift offset) (rest.map (Glyph.shift offset)) =
      ((readWord glyph rest).1.shift offset, (readWord glyph rest).2.map (Glyph.shift offset)) := by
  simp only [readWord, takeWhile_shift continuesWord, dropWhile_shift continuesWord, runSpan_shift]

theorem readNumber_shift (glyph : Glyph) (rest : List Glyph) :
    readNumber (glyph.shift offset) (rest.map (Glyph.shift offset)) =
      ((readNumber glyph rest).1.shift offset, (readNumber glyph rest).2.map (Glyph.shift offset)) := by
  simp only [readNumber, takeWhile_shift Text.isDigit, dropWhile_shift Text.isDigit, runSpan_shift]

theorem skipLine_shift (glyphs : List Glyph) :
    skipLine (glyphs.map (Glyph.shift offset)) = (skipLine glyphs).map (Glyph.shift offset) :=
  dropWhile_shift (fun char => char ≠ '\n') glyphs

theorem nextIs_shift (char : Char) (glyphs : List Glyph) :
    nextIs char (glyphs.map (Glyph.shift offset)) = nextIs char glyphs := by
  cases glyphs <;> rfl

theorem skipBlock_shift (glyphs : List Glyph) :
    skipBlock? (glyphs.map (Glyph.shift offset)) =
      (skipBlock? glyphs).map (List.map (Glyph.shift offset)) := by
  induction glyphs with
  | nil => rfl
  | cons glyph rest induction =>
      rw [List.map_cons]
      simp only [skipBlock?, nextIs_shift, induction]
      change (if (glyph.char = '#' && nextIs '>' rest) = true then _ else _) = _
      split
      next => simp
      next => rfl

theorem closeGroup_shift (delimiter : Delimiter) (first : Glyph) (body : List Tree)
    (glyphs : List Glyph) :
    closeGroup (stop.shift offset) delimiter (first.shift offset) (shiftAll offset body)
        (glyphs.map (Glyph.shift offset)) =
      relocate offset (fun read => (read.1.shift offset, read.2.map (Glyph.shift offset)))
        (closeGroup stop delimiter first body glyphs) := by
  cases glyphs with
  | nil => rfl
  | cons last rest =>
      rw [List.map_cons]
      simp only [closeGroup]
      change (if last.char = delimiter.closing then _ else _) = _
      split
      next =>
        simp only [relocate, shift]
        rfl
      next => rfl

theorem close_shift (form : Quotation) (glyph : Glyph) (rest : List Glyph) :
    (form.shift offset).close? (glyph.shift offset) (rest.map (Glyph.shift offset)) =
      (form.close? glyph rest).map fun closed =>
        (closed.1.shift offset, closed.2.map (Glyph.shift offset)) := by
  simp only [Quotation.close?, Quotation.shift, nextIs_shift]
  split
  next =>
    cases rest with
    | nil => rfl
    | cons next behind =>
        rw [List.map_cons]
        -- The column decides whether a here-string ends, and it stays.
        change (if (glyph.span.start.col = 1 && next.char = '@') = true then _ else _) = _
        split
        next closes => simp [closes, Glyph.shift, Span.shift]
        next unclosed => simp [unclosed]
  next =>
    split
    next => rfl
    next => simp [Glyph.shift, Span.shift]

theorem afterQuote_shift (form : Quotation) (rest : List Glyph) :
    (form.shift offset).afterQuote (rest.map (Glyph.shift offset)) =
      (form.afterQuote rest).map (Glyph.shift offset) := by
  unfold Quotation.afterQuote
  change (if form.here = true then _ else _) = _
  split
  next => rfl
  next => exact List.map_tail.symm

theorem symbolAt_shift (alone : SymbolAt glyph rest) :
    SymbolAt (glyph.shift offset) (rest.map (Glyph.shift offset)) := by
  refine alone.imp id fun ⟨lone, plain⟩ => ⟨lone, ?_⟩
  intro next head
  cases rest with
  | nil => cases head
  | cons other behind =>
      obtain rfl := Option.some.inj head
      exact plain other rfl

theorem readTrees_length (enough : glyphs.length < fuel)
    (success : readTrees stop fuel glyphs = .ok (trees, left)) : left.length ≤ glyphs.length := by
  have follows := (readers_follow stop fuel).1 [] glyphs trivial enough
  rw [success] at follows
  exact follows.2.2

theorem readString_length {form : Quotation} {parts : List Tree} {last : Location}
    (quoted : IsQuote form.quote) (enough : glyphs.length < fuel)
    (success : readString stop fuel form glyphs = .ok (parts, last, left)) :
    left.length ≤ glyphs.length := by
  have follows := (readers_follow stop fuel).2 form [] glyphs quoted enough
  rw [success] at follows
  exact follows.2

theorem closeGroup_length {delimiter : Delimiter} {first : Glyph} {body : List Tree}
    (success : closeGroup stop delimiter first body glyphs = .ok (tree, left)) :
    left.length < glyphs.length := by
  cases glyphs with
  | nil => cases success
  | cons last rest =>
      rw [closeGroup] at success
      split at success
      next =>
        obtain ⟨-, rfl⟩ := Prod.mk.inj (Except.ok.inj success)
        exact Nat.lt_succ_self _
      next => cases success

def shiftRead (offset : Offset) (read : List Tree × List Glyph) : List Tree × List Glyph :=
  (shiftAll offset read.1, read.2.map (Glyph.shift offset))

def shiftString (offset : Offset) (read : List Tree × Location × List Glyph) :
    List Tree × Location × List Glyph :=
  (shiftAll offset read.1, read.2.1.shift offset, read.2.2.map (Glyph.shift offset))

def TreesShift (offset : Offset) (stop : Location) (fuel : Nat) : Prop :=
  ∀ other glyphs, glyphs.length < fuel → glyphs.length < other →
    readTrees (stop.shift offset) other (glyphs.map (Glyph.shift offset)) =
      relocate offset (shiftRead offset) (readTrees stop fuel glyphs)

def StringShifts (offset : Offset) (stop : Location) (fuel : Nat) : Prop :=
  ∀ other form glyphs, IsQuote form.quote → glyphs.length < fuel → glyphs.length < other →
    readString (stop.shift offset) other (form.shift offset) (glyphs.map (Glyph.shift offset)) =
      relocate offset (shiftString offset) (readString stop fuel form glyphs)

section Steps

variable {other : Nat} (shifts : TreesShift offset stop fuel)
  (strings : StringShifts offset stop fuel)

include shifts

theorem linked_shift (tree : Tree) (enough : glyphs.length < fuel) (enoughOther : glyphs.length < other) :
    (do let (trees, left) ← readTrees (stop.shift offset) other (glyphs.map (Glyph.shift offset))
        return (link (tree.shift offset) trees, left)) =
      relocate offset (shiftRead offset) (do
        let (trees, left) ← readTrees stop fuel glyphs
        return (link tree trees, left)) := by
  apply relocate_bind (shifts other glyphs enough enoughOther)
  rintro ⟨trees, left⟩ -
  simp only [shiftRead, link_shift]
  rfl

theorem group_shift {Value Other : Type} {move : Value → Other} (delimiter : Delimiter)
    (first : Glyph) (enough : glyphs.length < fuel) (enoughOther : glyphs.length < other)
    {continued : Tree × List Glyph → Except SyntaxError Value}
    {moved : Tree × List Glyph → Except SyntaxError Other}
    (continues : ∀ closed left, left.length < glyphs.length →
      moved (closed.shift offset, left.map (Glyph.shift offset)) =
        relocate offset move (continued (closed, left))) :
    (do let (body, rest) ← readTrees (stop.shift offset) other (glyphs.map (Glyph.shift offset))
        let read ← closeGroup (stop.shift offset) delimiter (first.shift offset) body rest
        moved read) =
      relocate offset move (do
        let (body, rest) ← readTrees stop fuel glyphs
        let read ← closeGroup stop delimiter first body rest
        continued read) := by
  apply relocate_bind (shifts other glyphs enough enoughOther)
  rintro ⟨body, rest⟩ inside
  apply relocate_bind (closeGroup_shift delimiter first body rest)
  rintro ⟨closed, left⟩ closes
  have shorter := readTrees_length enough inside
  have shorterStill := closeGroup_length closes
  exact continues closed left (Nat.lt_of_lt_of_le shorterStill shorter)

include strings

theorem string_shift (form : Quotation) (quoted : IsQuote form.quote) (enough : glyphs.length < fuel)
    (enoughOther : glyphs.length < other) :
    (do let (parts, last, rest) ←
          readString (stop.shift offset) other (form.shift offset) (glyphs.map (Glyph.shift offset))
        let (trees, rest) ← readTrees (stop.shift offset) other rest
        return (link (.string ⟨form.start.shift offset, last⟩ parts) trees, rest)) =
      relocate offset (shiftRead offset) (do
        let (parts, last, rest) ← readString stop fuel form glyphs
        let (trees, rest) ← readTrees stop fuel rest
        return (link (.string ⟨form.start, last⟩ parts) trees, rest)) := by
  apply relocate_bind (strings other form glyphs quoted enough enoughOther)
  rintro ⟨parts, last, rest⟩ inside
  have shorter := readString_length quoted enough inside
  have linked := linked_shift shifts (.string ⟨form.start, last⟩ parts)
    (Nat.lt_of_le_of_lt shorter enough) (Nat.lt_of_le_of_lt shorter enoughOther)
  simp only [shift, Span.shift] at linked
  exact linked

theorem trees_shift_step : TreesShift offset stop (fuel + 1) := by
  intro other glyphs enough enoughOther
  obtain ⟨other, rfl⟩ : ∃ less, other = less + 1 := Nat.exists_eq_add_one.mpr (by omega)
  cases glyphs with
  | nil =>
      rw [List.map_nil, readTrees_nil, readTrees_nil]
      rfl
  | cons glyph rest =>
      have short : rest.length < fuel := Nat.lt_of_succ_lt_succ enough
      have shortOther : rest.length < other := Nat.lt_of_succ_lt_succ enoughOther
      rw [List.map_cons]
      cases begins glyph rest with
      | closing delimiter lead =>
          have moved : Lead.ofChar (glyph.shift offset).char = _ := lead
          rw [readTrees_closing lead, readTrees_closing moved]
          rfl
      | opening delimiter lead =>
          have moved : Lead.ofChar (glyph.shift offset).char = _ := lead
          rw [readTrees_opening lead, readTrees_opening moved]
          apply group_shift shifts delimiter glyph short shortOther
          intro closed left shorter
          exact linked_shift shifts closed (by omega) (by omega)
      | line lead =>
          have moved : Lead.ofChar (glyph.shift offset).char = _ := lead
          rw [readTrees_line lead, readTrees_line moved, skipLine_shift]
          have shorter := Machine.skipLine_length rest
          exact shifts other (skipLine rest) (by omega) (by omega)
      | @block next behind angle hash =>
          have angleMoved : (glyph.shift offset).char = '<' := angle
          have hashMoved : (next.shift offset).char = '#' := hash
          rw [List.map_cons, readTrees_block angle hash, readTrees_block angleMoved hashMoved,
            skipBlock_shift]
          cases closed : skipBlock? behind with
          | none => rfl
          | some left =>
              have shorter := Machine.pastMark_length
                ((Machine.pastMark_eq_skipBlock behind).trans closed)
              simp only [List.length_cons] at short shortOther
              exact shifts other left (by omega) (by omega)
      | blank lead =>
          have moved : Lead.ofChar (glyph.shift offset).char = _ := lead
          rw [readTrees_blank lead, readTrees_blank moved]
          exact shifts other rest short shortOther
      | @here next behind lead quoted =>
          simp only [List.length_cons] at short shortOther
          have moved : Lead.ofChar (glyph.shift offset).char = .atSign := lead
          have quotedMoved : IsQuote (next.shift offset).char := quoted
          rw [List.map_cons, readTrees_here lead quoted, readTrees_here moved quotedMoved]
          exact string_shift shifts strings ⟨glyph.span.start, next.char, true⟩ quoted (by omega)
            (by omega)
      | quote lead =>
          have quoted : IsQuote glyph.char := (lead ▸ Lead.fits_ofChar glyph.char : Lead.Fits _ .quote)
          have moved : Lead.ofChar (glyph.shift offset).char = _ := lead
          rw [readTrees_quote lead, readTrees_quote moved]
          exact string_shift shifts strings ⟨glyph.span.start, glyph.char, false⟩ quoted short
            shortOther
      | word lead =>
          have shorter : (readWord glyph rest).2.length ≤ rest.length :=
            (List.dropWhile_suffix _).length_le
          have moved : Lead.ofChar (glyph.shift offset).char = _ := lead
          rw [readTrees_word lead, readTrees_word moved, readWord_shift]
          exact linked_shift shifts (.word _ .alone) (by omega) (by omega)
      | number lead =>
          have shorter : (readNumber glyph rest).2.length ≤ rest.length :=
            (List.dropWhile_suffix _).length_le
          have moved : Lead.ofChar (glyph.shift offset).char = _ := lead
          rw [readTrees_number lead, readTrees_number moved, readNumber_shift]
          exact linked_shift shifts (.number _) (by omega) (by omega)
      | symbol alone =>
          rw [readTrees_symbol (symbolAt_shift alone), readTrees_symbol alone]
          exact linked_shift shifts (.symbol glyph.char glyph.span .alone) short shortOther

theorem string_shift_step : StringShifts offset stop (fuel + 1) := by
  intro other form glyphs quotes enough enoughOther
  obtain ⟨other, rfl⟩ : ∃ less, other = less + 1 := Nat.exists_eq_add_one.mpr (by omega)
  cases glyphs with
  | nil =>
      rw [List.map_nil, readString_nil, readString_nil]
      rfl
  | cons glyph rest =>
      have short : rest.length < fuel := Nat.lt_of_succ_lt_succ enough
      have shortOther : rest.length < other := Nat.lt_of_succ_lt_succ enoughOther
      have continues {left : List Glyph} (shorter : left.length ≤ rest.length) :=
        strings other form left quotes (by omega) (by omega)
      have same : ¬ (glyph.char = '\x60' ∧ form.quote = '"') →
          ¬ ((glyph.shift offset).char = '\x60' ∧ (form.shift offset).quote = '"') := id
      rw [List.map_cons]
      cases goes form glyph rest with
      | escape backtick double =>
          have moved : (glyph.shift offset).char = '\x60' := backtick
          have doubleMoved : (form.shift offset).quote = '"' := double
          rw [readString_escape backtick double, readString_escape moved doubleMoved,
            ← List.map_tail]
          exact continues (List.tail_suffix rest).length_le
      | @close rest left last plain quoted closes =>
          have moved : (form.shift offset).close? (glyph.shift offset) (rest.map (Glyph.shift offset)) =
              some (last.shift offset, left.map (Glyph.shift offset)) := by
            rw [close_shift, closes]
            rfl
          rw [readString_close plain quoted closes, readString_close (same plain) quoted moved]
          rfl
      | @stay rest plain quoted stays =>
          have moved : (form.shift offset).close? (glyph.shift offset) (rest.map (Glyph.shift offset)) =
              none := by
            rw [close_shift, stays]
            rfl
          rw [readString_stay plain quoted stays, readString_stay (same plain) quoted moved,
            afterQuote_shift]
          exact continues (suffix_afterQuote form rest).length_le
      | @group next behind delimiter dollar double lead round =>
          have dollarMoved : (glyph.shift offset).char = '$' := dollar
          have doubleMoved : (form.shift offset).quote = '"' := double
          have moved : Lead.ofChar (next.shift offset).char = .opening delimiter := lead
          simp only [List.length_cons] at short shortOther continues
          rw [List.map_cons, readString_group dollar double lead round,
            readString_group dollarMoved doubleMoved moved round]
          apply group_shift shifts delimiter next (by omega) (by omega)
          intro closed left shorter
          apply relocate_bind (continues (by omega))
          rintro ⟨parts, last, rest⟩ -
          rfl
      | @word next behind dollar double lead =>
          have dollarMoved : (glyph.shift offset).char = '$' := dollar
          have doubleMoved : (form.shift offset).quote = '"' := double
          have moved : Lead.ofChar (next.shift offset).char = .word := lead
          have shorter : (readWord next behind).2.length ≤ behind.length :=
            (List.dropWhile_suffix _).length_le
          simp only [List.length_cons] at continues
          rw [List.map_cons, readString_word dollar double lead,
            readString_word dollarMoved doubleMoved moved, readWord_shift]
          apply relocate_bind (continues (by omega))
          rintro ⟨parts, last, rest⟩ -
          rfl
      | @pass rest plain unquoted bare =>
          have bareMoved : (glyph.shift offset).char = '$' ∧ (form.shift offset).quote = '"' →
              ∀ next ∈ (rest.map (Glyph.shift offset)).head?, next.char ≠ '(' ∧ next.char ≠ '\x7b' ∧
                Lead.ofChar next.char ≠ .word := by
            intro dollar next head
            cases rest with
            | nil => cases head
            | cons first behind =>
                obtain rfl := Option.some.inj head
                exact bare dollar first rfl
          rw [readString_pass plain unquoted bare, readString_pass (same plain) unquoted bareMoved]
          exact continues (Nat.le_refl _)

end Steps

theorem readers_shift (offset : Offset) (stop : Location) (fuel : Nat) :
    TreesShift offset stop fuel ∧ StringShifts offset stop fuel := by
  induction fuel with
  | zero => exact ⟨fun _ _ none => by omega, fun _ _ _ _ none => by omega⟩
  | succ fuel induction =>
      exact ⟨trees_shift_step induction.1 induction.2, string_shift_step induction.1 induction.2⟩

end ScopeLint.Tree
