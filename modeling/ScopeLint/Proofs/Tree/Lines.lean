import ScopeLint.Proofs.Tree.Bounds
import ScopeLint.Proofs.Tree.Shift

/-!
Reading a text line by line. A text that can be read by itself is read the same when a line break
and another text follow it: nothing of it looks beyond the line break, which ends words, numbers and
line comments and continues nothing else. What comes behind is read as it would be alone, moved down.
-/

namespace ScopeLint.Tree

variable {stop whole : Location} {fuel other : Nat} {glyph feed : Glyph}
  {glyphs rest left behind : List Glyph} {tree : Tree} {trees later : List Tree}

def join (trees later : List Tree) : List Tree := trees.foldr link later

def Linked : List Tree → Prop
  | [] => True
  | tree :: rest => link tree rest = tree :: rest ∧ Linked rest

theorem withSpacing_withSpacing (first second : Spacing) (tree : Tree) :
    (tree.withSpacing first).withSpacing second = tree.withSpacing second := by
  cases tree <;> rfl

theorem link_withSpacing (spacing : Spacing) (tree : Tree) (trees : List Tree) :
    link (tree.withSpacing spacing) trees = link tree trees := by
  cases trees with
  | nil => simp only [link, withSpacing_withSpacing]
  | cons next rest => simp only [link, withSpacing_withSpacing, span_withSpacing]

theorem Linked.link (linked : Linked trees) (tree : Tree) : Linked (tree.link trees) := by
  obtain ⟨spacing, same, -⟩ := exists_link tree trees
  rw [same]
  exact ⟨by rw [link_withSpacing, same], linked⟩

theorem join_link (tree : Tree) (trees later : List Tree) :
    join (tree.link trees) later = tree.link (join trees later) := by
  obtain ⟨spacing, same, -⟩ := exists_link tree trees
  rw [same]
  exact link_withSpacing spacing tree (join trees later)

/-- A lexeme in front of the given rest of its stream, with another spacing if it is the last. -/
def spaced (spacing : Spacing) (rest : List Tree) (tree : Tree) : Tree :=
  if rest.isEmpty then tree.withSpacing spacing else tree

def extend (spacing : Spacing) : List Tree → List Tree → List Tree
  | [], later => later
  | tree :: rest, later => tree.spaced spacing rest :: extend spacing rest later

theorem exists_spaced (spacing : Spacing) (rest : List Tree) (tree : Tree) :
    ∃ other, tree.spaced spacing rest = tree.withSpacing other := by
  unfold spaced
  split
  next => exact ⟨spacing, rfl⟩
  next => exact ⟨tree.spacing, by cases tree <;> rfl⟩

theorem spaced_of_ne_nil {rest : List Tree} (more : rest ≠ []) (spacing : Spacing) (tree : Tree) :
    tree.spaced spacing rest = tree := by
  cases rest with
  | nil => exact absurd rfl more
  | cons => rfl

theorem span_spaced (spacing : Spacing) (rest : List Tree) (tree : Tree) :
    (tree.spaced spacing rest).span = tree.span := by
  obtain ⟨other, same⟩ := exists_spaced spacing rest tree
  rw [same, span_withSpacing]

/-- Joining a stream to another one changes only the spacing of its last lexeme. -/
theorem exists_extend (linked : Linked trees) (later : List Tree) :
    ∃ spacing, join trees later = extend spacing trees later := by
  induction trees with
  | nil => exact ⟨.alone, rfl⟩
  | cons tree rest induction =>
      obtain ⟨same, linkedRest⟩ := linked
      obtain ⟨spacing, joined⟩ := induction linkedRest
      cases rest with
      | nil =>
          obtain ⟨other, linked, -⟩ := exists_link tree later
          exact ⟨other, linked⟩
      | cons next more =>
          refine ⟨spacing, ?_⟩
          have first : join (tree :: next :: more) later = tree.link (join (next :: more) later) := rfl
          rw [first, joined]
          simp only [link, List.cons.injEq] at same
          simp only [extend, link, span_spaced, same.1]
          rfl

/-- The last lexeme of a stream that lets a line end: it touches nothing and takes no line break
along. -/
def EndsLine (trees : List Tree) : Prop :=
  ∀ last ∈ trees.getLast?, last.spacing = .alone ∧ last.isSymbol '\x60' = false ∧
    last.isSymbol '|' = false ∧ last.isSymbol '+' = false

theorem EndsLine.tail {tree : Tree} (ends : EndsLine (tree :: trees)) : EndsLine trees := by
  cases trees with
  | nil => simp [EndsLine]
  | cons next rest => simpa only [EndsLine, List.getLast?_cons_cons] using ends

theorem Linked.last_alone (linked : Linked trees) :
    ∀ last ∈ trees.getLast?, last.spacing = .alone := by
  induction trees with
  | nil => simp
  | cons tree rest induction =>
      cases rest with
      | nil =>
          have same := (List.cons.inj linked.1).1
          intro last final
          obtain rfl : tree = last := by simpa using final
          rw [← same]
          cases tree <;> rfl
      | cons next more =>
          rw [List.getLast?_cons_cons]
          exact induction linked.2

section Break

variable (newline : feed.char = '\n')

include newline

theorem takeWhile_line (test : Char → Bool) (ends : test '\n' = false) (rest : List Glyph) :
    (rest ++ feed :: behind).takeWhile (fun glyph => test glyph.char) =
      rest.takeWhile fun glyph => test glyph.char := by
  induction rest with
  | nil => simp [newline, ends]
  | cons glyph rest induction =>
      rw [List.cons_append, List.takeWhile_cons, List.takeWhile_cons, induction]

theorem dropWhile_line (test : Char → Bool) (ends : test '\n' = false) (rest : List Glyph) :
    (rest ++ feed :: behind).dropWhile (fun glyph => test glyph.char) =
      (rest.dropWhile fun glyph => test glyph.char) ++ feed :: behind := by
  induction rest with
  | nil => simp [newline, ends]
  | cons glyph rest induction =>
      rw [List.cons_append, List.dropWhile_cons, List.dropWhile_cons, induction]
      split <;> rfl

theorem readWord_line (glyph : Glyph) (rest : List Glyph) :
    readWord glyph (rest ++ feed :: behind) =
      ((readWord glyph rest).1, (readWord glyph rest).2 ++ feed :: behind) := by
  have ends : continuesWord '\n' = false := by decide +kernel
  simp only [readWord, takeWhile_line newline continuesWord ends,
    dropWhile_line newline continuesWord ends]

theorem readNumber_line (glyph : Glyph) (rest : List Glyph) :
    readNumber glyph (rest ++ feed :: behind) =
      ((readNumber glyph rest).1, (readNumber glyph rest).2 ++ feed :: behind) := by
  have ends : Text.isDigit '\n' = false := by decide +kernel
  simp only [readNumber, takeWhile_line newline Text.isDigit ends,
    dropWhile_line newline Text.isDigit ends]

theorem skipLine_line (rest : List Glyph) :
    skipLine (rest ++ feed :: behind) = skipLine rest ++ feed :: behind :=
  dropWhile_line newline (fun char => char ≠ '\n') (by decide) rest

theorem nextIs_line {char : Char} (visible : char ≠ '\n') (rest : List Glyph) :
    nextIs char (rest ++ feed :: behind) = nextIs char rest := by
  cases rest with
  | nil => simp [nextIs, newline, visible.symm]
  | cons next rest => rfl

theorem skipBlock_line (closed : skipBlock? rest = some left) :
    skipBlock? (rest ++ feed :: behind) = some (left ++ feed :: behind) := by
  induction rest with
  | nil => cases closed
  | cons glyph rest induction =>
      rw [List.cons_append]
      simp only [skipBlock?, nextIs_line newline (by decide : '>' ≠ '\n')] at closed ⊢
      split at closed
      next mark =>
        obtain rfl := Option.some.inj closed
        rw [if_pos mark]
        -- The end mark takes two glyphs, so there is a second one.
        cases rest with
        | nil => simp [nextIs] at mark
        | cons => rfl
      next unclosed =>
        rw [if_neg unclosed]
        exact induction closed

theorem symbolAt_line (alone : SymbolAt glyph rest) : SymbolAt glyph (rest ++ feed :: behind) := by
  refine alone.imp id fun ⟨lone, plain⟩ => ⟨lone, ?_⟩
  intro next head
  cases rest with
  | nil =>
      obtain rfl := Option.some.inj head
      simp [newline, IsQuote]
  | cons other rest => exact plain next head

theorem close_line {form : Quotation} (quoted : IsQuote form.quote) {last : Location}
    (closes : form.close? glyph rest = some (last, left)) :
    form.close? glyph (rest ++ feed :: behind) = some (last, left ++ feed :: behind) := by
  have visible : form.quote ≠ '\n' := by
    rcases quoted with same | same <;> rw [same] <;> decide
  unfold Quotation.close? at closes ⊢
  split at closes
  next here =>
    rw [if_pos here]
    cases rest with
    | nil => cases closes
    | cons next rest =>
        simp only [List.cons_append] at closes ⊢
        split at closes
        next ends =>
          obtain ⟨rfl, rfl⟩ := Prod.mk.inj (Option.some.inj closes)
          rw [if_pos ends]
        next => cases closes
  next plain =>
    rw [if_neg plain, nextIs_line newline visible]
    split at closes
    next => cases closes
    next single =>
      obtain ⟨rfl, rfl⟩ := Prod.mk.inj (Option.some.inj closes)
      rw [if_neg single]

end Break

theorem stay_line {form : Quotation} {next : Glyph}
    (stays : form.close? glyph (next :: rest) = none) :
    form.close? glyph (next :: rest ++ behind) = none := by
  simp only [Quotation.close?, List.cons_append] at stays ⊢
  split at stays
  next here =>
    rw [if_pos here]
    split at stays
    next => cases stays
    next unclosed => rw [if_neg unclosed]
  next plain =>
    rw [if_neg plain]
    split at stays
    next doubled => exact if_pos doubled
    next => cases stays

theorem closeGroup_line {delimiter : Delimiter} {first : Glyph} {body : List Tree}
    (closes : closeGroup stop delimiter first body rest = .ok (tree, left)) :
    rest ≠ [] ∧ closeGroup whole delimiter first body (rest ++ behind) = .ok (tree, left ++ behind) := by
  cases rest with
  | nil => cases closes
  | cons last rest =>
      refine ⟨List.cons_ne_nil _ _, ?_⟩
      rw [List.cons_append]
      simp only [closeGroup] at closes ⊢
      split at closes
      next matched =>
        obtain ⟨rfl, rfl⟩ := Prod.mk.inj (Except.ok.inj closes)
        rw [if_pos matched]
      next => cases closes

/-- What reading a text and more behind it comes to, given what reading the text alone came to: all
of it was read and reading goes on, or it stopped at a closing bracket and stops there again. -/
def resume (more : List Glyph) (outcome : Except SyntaxError (List Tree × List Glyph))
    (trees : List Tree) : List Glyph → Except SyntaxError (List Tree × List Glyph)
  | [] => outcome.map fun read => (join trees read.1, read.2)
  | glyph :: rest => .ok (trees, glyph :: rest ++ more)

theorem resume_of_ne_nil {more : List Glyph} {outcome : Except SyntaxError (List Tree × List Glyph)}
    (nonempty : left ≠ []) : resume more outcome trees left = .ok (trees, left ++ more) := by
  cases left with
  | nil => exact absurd rfl nonempty
  | cons glyph rest => rfl

theorem resume_link (more : List Glyph) (outcome : Except SyntaxError (List Tree × List Glyph))
    (tree : Tree) (trees : List Tree) (left : List Glyph) :
    (do let (trees, left) ← resume more outcome trees left
        return (tree.link trees, left)) = resume more outcome (tree.link trees) left := by
  cases left with
  | nil =>
      cases outcome with
      | error error => rfl
      | ok read =>
          simp only [resume, Except.map, join_link]
          rfl
  | cons glyph rest => rfl

def TreesResume (stop whole : Location) (more : List Glyph)
    (outcome : Except SyntaxError (List Tree × List Glyph)) (fuel : Nat) : Prop :=
  ∀ other glyphs trees left, glyphs.length < fuel → glyphs.length + more.length < other →
    readTrees stop fuel glyphs = .ok (trees, left) →
    Linked trees ∧ readTrees whole other (glyphs ++ more) = resume more outcome trees left

/-- A string that ends does not care for what follows. -/
def StringResumes (stop whole : Location) (more : List Glyph) (fuel : Nat) : Prop :=
  ∀ other form glyphs parts last left, IsQuote form.quote → glyphs.length < fuel →
    glyphs.length + more.length < other → readString stop fuel form glyphs = .ok (parts, last, left) →
    readString whole other form (glyphs ++ more) = .ok (parts, last, left ++ more)

section Steps

variable {outcome : Except SyntaxError (List Tree × List Glyph)} {read : List Tree × List Glyph}
  (resumes : TreesResume stop whole (feed :: behind) outcome fuel)

include resumes

theorem linked_line (tree : Tree) (enough : glyphs.length < fuel)
    (enoughOther : glyphs.length + (feed :: behind).length < other)
    (success : (do
      let (trees, left) ← readTrees stop fuel glyphs
      return (tree.link trees, left)) = .ok read) :
    Linked read.1 ∧ (do
      let (trees, left) ← readTrees whole other (glyphs ++ feed :: behind)
      return (tree.link trees, left)) = resume (feed :: behind) outcome read.1 read.2 := by
  obtain ⟨⟨later, left⟩, inside, same⟩ := Except.exists_of_bind success
  obtain rfl := Except.ok.inj same
  obtain ⟨linked, resumed⟩ := resumes other glyphs later left enough enoughOther inside
  rw [resumed]
  exact ⟨linked.link tree, resume_link _ _ tree later left⟩

/-- A bracketed part closes in front of the line break, or else it could not be read alone. -/
theorem group_line {delimiter : Delimiter} {first : Glyph} {body : List Tree}
    (enough : glyphs.length < fuel) (enoughOther : glyphs.length + (feed :: behind).length < other)
    (inside : readTrees stop fuel glyphs = .ok (body, rest))
    (closes : closeGroup stop delimiter first body rest = .ok (tree, left)) :
    readTrees whole other (glyphs ++ feed :: behind) = .ok (body, rest ++ feed :: behind) ∧
      closeGroup whole delimiter first body (rest ++ feed :: behind) =
        .ok (tree, left ++ feed :: behind) ∧ left.length < glyphs.length := by
  obtain ⟨nonempty, closed⟩ := closeGroup_line closes
  obtain ⟨-, resumed⟩ := resumes other glyphs body rest enough enoughOther inside
  rw [resume_of_ne_nil nonempty] at resumed
  have shorter := readTrees_length enough inside
  have shorterStill := closeGroup_length closes
  exact ⟨resumed, closed, Nat.lt_of_lt_of_le shorterStill shorter⟩

variable (strings : StringResumes stop whole (feed :: behind) fuel)

include strings

theorem string_line (form : Quotation) (quoted : IsQuote form.quote) (enough : glyphs.length < fuel)
    (enoughOther : glyphs.length + (feed :: behind).length < other)
    (success : (do
      let (parts, last, rest) ← readString stop fuel form glyphs
      let (trees, rest) ← readTrees stop fuel rest
      return (link (.string ⟨form.start, last⟩ parts) trees, rest)) = .ok read) :
    Linked read.1 ∧ (do
      let (parts, last, rest) ← readString whole other form (glyphs ++ feed :: behind)
      let (trees, rest) ← readTrees whole other rest
      return (link (.string ⟨form.start, last⟩ parts) trees, rest)) =
        resume (feed :: behind) outcome read.1 read.2 := by
  obtain ⟨⟨parts, last, rest⟩, inside, success⟩ := Except.exists_of_bind success
  have shorter := readString_length quoted enough inside
  rw [strings other form glyphs parts last rest quoted enough enoughOther inside]
  exact linked_line resumes _ (by omega) (by omega) success

variable (newline : feed.char = '\n')

include newline

theorem trees_line_step
    (reads : ∀ other, (feed :: behind).length < other →
      readTrees whole other (feed :: behind) = outcome) :
    TreesResume stop whole (feed :: behind) outcome (fuel + 1) := by
  intro other glyphs trees left enough enoughOther success
  cases glyphs with
  | nil =>
      rw [readTrees_nil] at success
      obtain ⟨rfl, rfl⟩ := Prod.mk.inj (Except.ok.inj success)
      refine ⟨trivial, ?_⟩
      rw [List.nil_append, reads other (by simpa using enoughOther)]
      cases outcome <;> rfl
  | cons glyph rest =>
      obtain ⟨other, rfl⟩ : ∃ less, other = less + 1 := Nat.exists_eq_add_one.mpr (by omega)
      have short : rest.length < fuel := Nat.lt_of_succ_lt_succ enough
      have shortOther : rest.length + (feed :: behind).length < other := by
        rw [List.length_cons] at enoughOther
        omega
      rw [List.cons_append]
      cases begins glyph rest with
      | closing delimiter lead =>
          rw [readTrees_closing lead] at success ⊢
          obtain ⟨rfl, rfl⟩ := Prod.mk.inj (Except.ok.inj success)
          exact ⟨trivial, rfl⟩
      | opening delimiter lead =>
          rw [readTrees_opening lead] at success ⊢
          obtain ⟨⟨body, inner⟩, inside, success⟩ := Except.exists_of_bind success
          obtain ⟨⟨closed, after⟩, closes, success⟩ := Except.exists_of_bind success
          obtain ⟨resumed, closesMore, shorter⟩ := group_line resumes short shortOther inside closes
          rw [resumed]
          simp only [bind, Except.bind, closesMore]
          exact linked_line resumes closed (by omega) (by omega) success
      | line lead =>
          rw [readTrees_line lead] at success ⊢
          rw [skipLine_line newline]
          have shorter := Machine.skipLine_length rest
          exact resumes other (skipLine rest) trees left (by omega) (by omega) success
      | @block next rest angle hash =>
          rw [List.cons_append, readTrees_block angle hash] at *
          cases closed : skipBlock? rest with
          | none =>
              rw [closed] at success
              cases success
          | some after =>
              rw [closed] at success
              rw [skipBlock_line newline closed]
              have shorter := Machine.pastMark_length
                ((Machine.pastMark_eq_skipBlock rest).trans closed)
              simp only [List.length_cons] at short shortOther
              exact resumes other after trees left (by omega) (by simp; omega) success
      | blank lead =>
          rw [readTrees_blank lead] at success ⊢
          exact resumes other rest trees left short shortOther success
      | @here next rest lead quoted =>
          rw [readTrees_here lead quoted] at success
          rw [List.cons_append, readTrees_here lead quoted]
          rw [List.length_cons] at short shortOther
          exact string_line resumes strings ⟨glyph.span.start, next.char, true⟩ quoted (by omega)
            (by omega) success
      | quote lead =>
          have quoted : IsQuote glyph.char := (lead ▸ Lead.fits_ofChar glyph.char : Lead.Fits _ .quote)
          rw [readTrees_quote lead] at success ⊢
          exact string_line resumes strings ⟨glyph.span.start, glyph.char, false⟩ quoted short
            shortOther success
      | word lead =>
          have shorter : (readWord glyph rest).2.length ≤ rest.length :=
            (List.dropWhile_suffix _).length_le
          rw [readTrees_word lead] at success ⊢
          rw [readWord_line newline]
          exact linked_line resumes (.word _ .alone) (by omega) (by omega) success
      | number lead =>
          have shorter : (readNumber glyph rest).2.length ≤ rest.length :=
            (List.dropWhile_suffix _).length_le
          rw [readTrees_number lead] at success ⊢
          rw [readNumber_line newline]
          exact linked_line resumes (.number _) (by omega) (by omega) success
      | symbol alone =>
          rw [readTrees_symbol alone] at success
          rw [readTrees_symbol (symbolAt_line newline alone)]
          exact linked_line resumes (.symbol glyph.char glyph.span .alone) short shortOther success

theorem string_line_step : StringResumes stop whole (feed :: behind) (fuel + 1) := by
  intro other form glyphs parts last left quotes enough enoughOther success
  cases glyphs with
  | nil =>
      rw [readString_nil] at success
      cases success
  | cons glyph rest =>
      obtain ⟨other, rfl⟩ : ∃ less, other = less + 1 := Nat.exists_eq_add_one.mpr (by omega)
      have short : rest.length < fuel := Nat.lt_of_succ_lt_succ enough
      have shortOther : rest.length + (feed :: behind).length < other := by
        rw [List.length_cons] at enoughOther
        omega
      have continues {after : List Glyph} {parts : List Tree} (shorter : after.length ≤ rest.length) :=
        strings other form after parts last left quotes (by omega) (by omega)
      have unfinished {fuel : Nat} (success : readString stop fuel form [] = .ok (parts, last, left)) :
          False := by
        rw [readString_nil] at success
        cases success
      rw [List.cons_append]
      cases goes form glyph rest with
      | @escape rest backtick double =>
          rw [readString_escape backtick double] at success ⊢
          cases rest with
          | nil => exact (unfinished success).elim
          | cons next rest => exact continues (Nat.le_succ _) success
      | @close rest after last plain quoted closes =>
          rw [readString_close plain quoted closes] at success
          obtain ⟨rfl, same⟩ := Prod.mk.inj (Except.ok.inj success)
          obtain ⟨rfl, rfl⟩ := Prod.mk.inj same
          rw [readString_close plain quoted (close_line newline quotes closes)]
      | @stay rest plain quoted stays =>
          rw [readString_stay plain quoted stays] at success
          cases rest with
          | nil => exact (unfinished (by simpa [Quotation.afterQuote] using success)).elim
          | cons next rest =>
              have shorter := (suffix_afterQuote form (next :: rest)).length_le
              have after : form.afterQuote (next :: rest ++ feed :: behind) =
                  form.afterQuote (next :: rest) ++ feed :: behind := by
                unfold Quotation.afterQuote
                split <;> rfl
              rw [readString_stay plain quoted (stay_line stays), after]
              exact continues shorter success
      | @group next rest delimiter dollar double lead round =>
          rw [readString_group dollar double lead round] at success
          rw [List.cons_append, readString_group dollar double lead round]
          rw [List.length_cons] at short shortOther
          obtain ⟨⟨body, inner⟩, inside, success⟩ := Except.exists_of_bind success
          obtain ⟨⟨closed, after⟩, closes, success⟩ := Except.exists_of_bind success
          obtain ⟨⟨others, final, ending⟩, more, same⟩ := Except.exists_of_bind success
          obtain ⟨rfl, ends⟩ := Prod.mk.inj (Except.ok.inj same)
          obtain ⟨rfl, rfl⟩ := Prod.mk.inj ends
          have enoughMore : rest.length + (feed :: behind).length < other := by omega
          obtain ⟨resumed, closesMore, shorter⟩ :=
            group_line resumes (by omega) enoughMore inside closes
          have continued := continues (by rw [List.length_cons]; omega) more
          rw [resumed]
          simp only [bind, Except.bind, closesMore, continued]
          rfl
      | @word next rest dollar double lead =>
          have shorter : (readWord next rest).2.length ≤ rest.length :=
            (List.dropWhile_suffix _).length_le
          rw [readString_word dollar double lead] at success
          rw [List.cons_append, readString_word dollar double lead, readWord_line newline]
          obtain ⟨⟨others, final, ending⟩, more, same⟩ := Except.exists_of_bind success
          obtain ⟨rfl, ends⟩ := Prod.mk.inj (Except.ok.inj same)
          obtain ⟨rfl, rfl⟩ := Prod.mk.inj ends
          rw [continues (by rw [List.length_cons]; omega) more]
          rfl
      | @pass rest plain unquoted bare =>
          rw [readString_pass plain unquoted bare] at success
          cases rest with
          | nil => exact (unfinished success).elim
          | cons next rest =>
              have bareMore : glyph.char = '$' ∧ form.quote = '"' →
                  ∀ first ∈ (next :: rest ++ feed :: behind).head?, first.char ≠ '(' ∧
                    first.char ≠ '\x7b' ∧ Lead.ofChar first.char ≠ .word := bare
              rw [readString_pass plain unquoted bareMore]
              exact continues (Nat.le_refl _) success

end Steps

theorem readers_line (stop whole : Location) {feed : Glyph} {behind : List Glyph}
    (newline : feed.char = '\n') {outcome : Except SyntaxError (List Tree × List Glyph)}
    (reads : ∀ other, (feed :: behind).length < other →
      readTrees whole other (feed :: behind) = outcome) (fuel : Nat) :
    TreesResume stop whole (feed :: behind) outcome fuel ∧
      StringResumes stop whole (feed :: behind) fuel := by
  induction fuel with
  | zero => exact ⟨fun _ _ _ _ none => by omega, fun _ _ _ _ _ _ _ none => by omega⟩
  | succ fuel induction =>
      exact ⟨trees_line_step induction.1 induction.2 newline reads,
        string_line_step induction.1 induction.2 newline⟩

def lineBreak (front : Text) : Tree := .symbol '\n' front.lineEnd.span .alone

/-- From the line break on, the lexemes are those of the text behind it, moved down. -/
theorem readTrees_lineEnd (front behind : Text) {other : Nat}
    (enough : behind.glyphs.length + 1 < other) :
    readTrees (behind.stop.shift front.lineOffset) other
        (front.lineEnd :: behind.glyphs.map (Glyph.shift front.lineOffset)) =
      relocate front.lineOffset (fun read => ((lineBreak front).link (shiftAll front.lineOffset read.1),
          read.2.map (Glyph.shift front.lineOffset)))
        (readTrees behind.stop (behind.glyphs.length + 1) behind.glyphs) := by
  obtain ⟨other, rfl⟩ : ∃ less, other = less + 1 := Nat.exists_eq_add_one.mpr (by omega)
  rw [readTrees_symbol (.inl rfl), ← bind_pure (readTrees behind.stop _ _)]
  apply relocate_bind ((readers_shift front.lineOffset behind.stop _).1 other behind.glyphs
    (Nat.lt_succ_self _) (by omega))
  rintro ⟨later, left⟩ -
  rfl

/-- The lexemes of two texts with a line break between them, when the first can be read by itself. -/
theorem read_line {front : Text} {trees : List Tree} (accepted : read front = .ok trees)
    (behind : Text) :
    Linked trees ∧ read (front ++ Text.lineFeed :: behind) =
      relocate front.lineOffset
        (fun later => join trees ((lineBreak front).link (shiftAll front.lineOffset later)))
        (read behind) := by
  have resumes := (readers_line front.stop (behind.stop.shift front.lineOffset) rfl
    (fun other enough => readTrees_lineEnd front behind (by simpa using enough))
    (front.glyphs.length + 1)).1
  obtain ⟨linked, resumed⟩ := resumes
    ((front ++ Text.lineFeed :: behind).glyphs.length + 1) front.glyphs trees []
    (Nat.lt_succ_self _) (by rw [Text.glyphs_line, List.length_append]; omega)
    (readTrees_of_read accepted)
  refine ⟨linked, ?_⟩
  rw [read, read, Text.stop_line]
  simp only [Text.glyphs_line] at resumed ⊢
  rw [resumed]
  cases readTrees behind.stop (behind.glyphs.length + 1) behind.glyphs with
  | error error => rfl
  | ok read =>
      obtain ⟨later, left⟩ := read
      cases left <;> rfl

end ScopeLint.Tree
