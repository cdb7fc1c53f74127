import ScopeLint.Proofs.Tree.Machine
import ScopeLint.Proofs.Tree.Reader

/-!
The recursive reader and the machine with a stack agree on every source text: they accept the
same texts, and stop the others with the same fault at the same place. The reader's return from a
group or string corresponds to a pop, so the two are compared with any stack below.
-/

namespace ScopeLint.Tree

namespace Machine

variable {stop : Location} {stack after : List Open} {glyph : Glyph} {rest left : List Glyph}

/-- What is wrong with the rest of a text when the given brackets and strings are open. -/
def faultOf (stop : Location) (stack : List Open) (glyphs : List Glyph) : Option SyntaxError :=
  fault? stop (run stack glyphs)

theorem faultOf_moved (moved : step stack glyph rest = .ok (after, left)) :
    faultOf stop stack (glyph :: rest) = faultOf stop after left := by
  rw [faultOf, run]
  split
  next error stuck => simp [moved] at stuck
  next other remaining same =>
    rw [moved] at same
    obtain ⟨rfl, rfl⟩ := Prod.mk.inj (Except.ok.inj same)
    rfl

theorem faultOf_stuck {error : SyntaxError} (stuck : step stack glyph rest = .error error) :
    faultOf stop stack (glyph :: rest) = some error := by
  rw [faultOf, run]
  split
  next other same =>
    rw [stuck] at same
    rw [Except.error.inj same]
    rfl
  next moved => simp [stuck] at moved

@[simp]
theorem faultOf_nil : faultOf stop stack [] = fault? stop (.ok stack) := by
  rw [faultOf, run]

def InCode : List Open → Prop
  | .string _ :: _ => False
  | _ => True

theorem step_code (code : InCode stack) : step stack glyph rest = inCode stack glyph rest := by
  unfold step
  split
  next => exact code.elim
  next => rfl

attribute [local simp] inCode

theorem inCode_unmarked (plain : glyph.char ∉ marks) :
    inCode stack glyph rest = .ok (stack, rest) := by
  simp only [marks, brackets, List.cons_append, List.nil_append, List.mem_cons, List.not_mem_nil,
    not_or] at plain
  cases rest <;> simp [opened?, isClosing, isQuote, plain]

theorem inCode_opening {delimiter : Delimiter} (opens : glyph.char = delimiter.opening) :
    inCode stack glyph rest = .ok (.group delimiter :: stack, rest) := by
  cases delimiter <;> simp [opened?, opens, Delimiter.opening]

theorem opened_closing (delimiter : Delimiter) : opened? delimiter.closing = none := by
  cases delimiter <;> decide

theorem isClosing_closing (delimiter : Delimiter) : isClosing delimiter.closing = true := by
  cases delimiter <;> decide

theorem inCode_closing {delimiter : Delimiter} (closes : glyph.char = delimiter.closing) :
    inCode (.group delimiter :: stack) glyph rest = .ok (stack, rest) := by
  simp [closes, opened_closing, isClosing_closing]

theorem inCode_wrong {delimiter other : Delimiter} (closes : glyph.char = other.closing)
    (wrong : glyph.char ≠ delimiter.closing) :
    inCode (.group delimiter :: stack) glyph rest =
      .error ⟨.wrongClosing delimiter (some glyph.char), glyph.span.start⟩ := by
  rw [closes] at wrong
  simp [closes, opened_closing, isClosing_closing, wrong]

theorem inCode_stray {other : Delimiter} (closes : glyph.char = other.closing) :
    inCode [] glyph rest = .error ⟨.strayClosing glyph.char, glyph.span.start⟩ := by
  simp [closes, opened_closing, isClosing_closing]

theorem inCode_comment (hash : glyph.char = '#') :
    inCode stack glyph rest = .ok (stack, skipLine rest) := by
  simp [hash, opened?, isClosing, skipLine]

theorem isQuote_iff (char : Char) : isQuote char = true ↔ IsQuote char := by
  simp [isQuote, IsQuote]

theorem inCode_quote (quoted : IsQuote glyph.char) :
    inCode stack glyph rest = .ok (.string ⟨glyph.span.start, glyph.char, false⟩ :: stack, rest) := by
  rcases quoted with same | same <;> simp [same, opened?, isClosing, isQuote]

theorem inCode_here {next : Glyph} (sign : glyph.char = '@') (quoted : IsQuote next.char) :
    inCode stack glyph (next :: rest) =
      .ok (.string ⟨glyph.span.start, next.char, true⟩ :: stack, rest) := by
  simp [sign, opened?, isClosing, isQuote.eq_1 '@', (isQuote_iff _).mpr quoted]

theorem inCode_symbol (alone : SymbolAt glyph rest) :
    inCode stack glyph rest = .ok (stack, rest) := by
  rcases alone with line | ⟨lone, plain⟩
  · apply inCode_unmarked
    rw [line]
    decide
  have bracket := lone.notBracket
  simp only [brackets, List.mem_cons, List.not_mem_nil, not_or] at bracket
  cases rest with
  | nil => simp [opened?, isClosing, isQuote, bracket, lone.notQuote, lone.notComment]
  | cons next behind =>
      obtain ⟨noBlock, noHere⟩ := plain next rfl
      rw [← isQuote_iff] at noHere
      simp [opened?, isClosing, isQuote.eq_1 glyph.char, bracket, lone.notQuote,
        lone.notComment, noBlock, noHere]

theorem pastMark_eq_skipBlock (glyphs : List Glyph) : pastMark? glyphs = skipBlock? glyphs := by
  induction glyphs with
  | nil => rfl
  | cons first rest induction =>
      cases rest with
      | nil => simp [pastMark?, skipBlock?, nextIs]
      | cons second behind =>
          rw [pastMark?, skipBlock?, induction]
          simp [nextIs]

theorem inCode_block {next : Glyph} (angle : glyph.char = '<') (hash : next.char = '#') :
    inCode stack glyph (next :: rest) =
      match skipBlock? rest with
      | some left => .ok (stack, left)
      | none => .error ⟨.openComment, glyph.span.start⟩ := by
  simp only [inCode, angle, hash, opened?, isClosing, isQuote, pastMark_eq_skipBlock]
  rfl

section Strings

variable {form : Quotation} {below : List Open}

theorem inString_escape (escape : glyph.char = '\x60' ∧ form.quote = '"') :
    inString form below glyph rest = (.string form :: below, rest.tail) := by
  unfold inString
  rw [if_pos escape]

theorem inString_close (plain : ¬ (glyph.char = '\x60' ∧ form.quote = '"'))
    (quoted : glyph.char = form.quote) {last : Location}
    (closes : form.close? glyph rest = some (last, left)) :
    inString form below glyph rest = (below, left) := by
  unfold inString
  rw [if_neg plain]
  cases rest with
  | nil =>
      cases here : form.here with
      | true => simp [Quotation.close?, here] at closes
      | false =>
          simp [Quotation.close?, here, nextIs] at closes
          simp [quoted, closes.2]
  | cons next behind =>
      cases here : form.here with
      | true =>
          simp [Quotation.close?, here] at closes
          simp [quoted, closes]
      | false =>
          simp [Quotation.close?, here, nextIs] at closes
          simp [quoted, closes]

theorem inString_quote (plain : ¬ (glyph.char = '\x60' ∧ form.quote = '"'))
    (quoted : glyph.char = form.quote) (stays : form.close? glyph rest = none) :
    inString form below glyph rest = (.string form :: below, form.afterQuote rest) := by
  unfold inString
  rw [if_neg plain]
  cases rest with
  | nil =>
      cases here : form.here with
      | true => simp [Quotation.afterQuote, here]
      | false => simp [Quotation.close?, here, nextIs] at stays
  | cons next behind =>
      cases here : form.here with
      | true =>
          simp [Quotation.close?, here] at stays
          simpa [quoted, Quotation.afterQuote, here] using stays
      | false =>
          simp [Quotation.close?, here, nextIs] at stays
          simp [quoted, Quotation.afterQuote, here, stays]

theorem inString_pass (plain : ¬ (glyph.char = '\x60' ∧ form.quote = '"'))
    (unquoted : glyph.char ≠ form.quote)
    (bare : glyph.char = '$' ∧ form.quote = '"' → ∀ next ∈ rest.head?,
      next.char ≠ '(' ∧ next.char ≠ '\x7b') :
    inString form below glyph rest = (.string form :: below, rest) := by
  unfold inString
  rw [if_neg plain]
  cases rest with
  | nil => simp [unquoted]
  | cons next behind =>
      by_cases dollar : glyph.char = '$' ∧ form.quote = '"'
      · simp [unquoted, bare dollar next rfl]
      · simp [unquoted, dollar]

theorem inString_group (dollar : glyph.char = '$' ∧ form.quote = '"')
    {next : Glyph} {delimiter : Delimiter} (opens : next.char = delimiter.opening)
    (round : delimiter ≠ .bracket) :
    inString form below glyph (next :: rest) =
      (.group delimiter :: .string form :: below, rest) := by
  cases delimiter with
  | paren => simp [inString, dollar, opens, Delimiter.opening]
  | brace => simp [inString, dollar, opens, Delimiter.opening]
  | bracket => exact absurd rfl round

/-- Characters of words have no meaning in a string. -/
theorem inString_unmarked (quoted : IsQuote form.quote) (plain : glyph.char ∉ marks) :
    inString form below glyph rest = (.string form :: below, rest) := by
  have distinct : ∀ mark ∈ marks, glyph.char ≠ mark := fun mark member same => plain (same ▸ member)
  apply inString_pass
  · exact fun escape => distinct '\x60' (by decide) escape.1
  · rcases quoted with same | same
    · rw [same]
      exact distinct _ (by decide)
    · rw [same]
      exact distinct _ (by decide)
  · exact fun dollar => absurd dollar.1 (distinct '$' (by decide))

end Strings

/-- A reader fails only with the given fault, and what it returns satisfies a condition. -/
def Follows {Value : Type} (fault : Option SyntaxError) (post : Value → Prop) :
    Except SyntaxError Value → Prop
  | .error error => fault = some error
  | .ok value => post value

theorem Follows.bind {Value Other : Type} {fault : Option SyntaxError} {middle : Value → Prop}
    {post : Other → Prop} {first : Except SyntaxError Value} {next : Value → Except SyntaxError Other}
    (follows : Follows fault middle first)
    (continues : ∀ value, middle value → Follows fault post (next value)) :
    Follows fault post (first >>= next) := by
  cases first with
  | error error => exact follows
  | ok value => exact continues value follows

def AtClosing (glyphs : List Glyph) : Prop :=
  ∀ glyph ∈ glyphs.head?, ∃ delimiter : Delimiter, glyph.char = delimiter.closing

/-- Reading lexemes leaves the machine where it was, in front of what is left. -/
def TreesFollow (stop : Location) (fuel : Nat) : Prop :=
  ∀ stack glyphs, InCode stack → glyphs.length < fuel →
    Follows (faultOf stop stack glyphs) (fun read : List Tree × List Glyph =>
      faultOf stop stack glyphs = faultOf stop stack read.2 ∧ AtClosing read.2 ∧
        read.2.length ≤ glyphs.length) (readTrees stop fuel glyphs)

/-- Reading a string pops it. -/
def StringFollows (stop : Location) (fuel : Nat) : Prop :=
  ∀ form stack glyphs, IsQuote form.quote → glyphs.length < fuel →
    Follows (faultOf stop (.string form :: stack) glyphs)
      (fun read : List Tree × Location × List Glyph =>
        faultOf stop (.string form :: stack) glyphs = faultOf stop stack read.2.2 ∧
          read.2.2.length ≤ glyphs.length) (readString stop fuel form glyphs)

theorem closeGroup_follows (delimiter : Delimiter) (first : Glyph) (body : List Tree)
    {glyphs : List Glyph} (closing : AtClosing glyphs) :
    Follows (faultOf stop (.group delimiter :: stack) glyphs) (fun read : Tree × List Glyph =>
      faultOf stop (.group delimiter :: stack) glyphs = faultOf stop stack read.2 ∧
        read.2.length ≤ glyphs.length) (closeGroup stop delimiter first body glyphs) := by
  cases glyphs with
  | nil => exact faultOf_nil
  | cons last behind =>
      obtain ⟨other, closes⟩ := closing last rfl
      have code : InCode (.group delimiter :: stack) := trivial
      rw [closeGroup]
      split
      next matched =>
        refine ⟨faultOf_moved ?_, by simp⟩
        rw [step_code code, inCode_closing matched]
      next wrong =>
        apply faultOf_stuck
        rw [step_code code, inCode_wrong closes wrong]

theorem group_follows {fuel : Nat} (trees : TreesFollow stop fuel) (delimiter : Delimiter)
    (first : Glyph) {glyphs : List Glyph} (enough : glyphs.length < fuel)
    {Other : Type} {post : Other → Prop} {next : Tree × List Glyph → Except SyntaxError Other}
    (continues : ∀ closed left, left.length ≤ glyphs.length →
      faultOf stop (.group delimiter :: stack) glyphs = faultOf stop stack left →
      Follows (faultOf stop (.group delimiter :: stack) glyphs) post (next (closed, left))) :
    Follows (faultOf stop (.group delimiter :: stack) glyphs) post (do
      let (body, rest) ← readTrees stop fuel glyphs
      let read ← closeGroup stop delimiter first body rest
      next read) := by
  apply Follows.bind (trees (.group delimiter :: stack) glyphs trivial enough)
  rintro ⟨body, rest⟩ ⟨same, closing, shorter⟩
  rw [same]
  apply Follows.bind (closeGroup_follows delimiter first body closing)
  rintro ⟨closed, left⟩ ⟨popped, shorterStill⟩
  have continued := continues closed left (Nat.le_trans shorterStill shorter) (same.trans popped)
  rwa [same] at continued

theorem rest_follows {fuel : Nat} (trees : TreesFollow stop fuel) (code : InCode stack)
    {glyphs : List Glyph} (same : faultOf stop stack glyphs = faultOf stop stack left)
    (shorter : left.length < glyphs.length) (enough : glyphs.length < fuel + 1) :
    Follows (faultOf stop stack glyphs) (fun read : List Tree × List Glyph =>
      faultOf stop stack glyphs = faultOf stop stack read.2 ∧ AtClosing read.2 ∧
        read.2.length ≤ glyphs.length) (readTrees stop fuel left) := by
  have follows := trees stack left code (by omega)
  rw [same]
  cases outcome : readTrees stop fuel left with
  | error error =>
      rw [outcome] at follows
      exact follows
  | ok read =>
      rw [outcome] at follows
      obtain ⟨faults, closing, length⟩ := follows
      exact ⟨faults, closing, by omega⟩

theorem linked_follows {fuel : Nat} (trees : TreesFollow stop fuel) (code : InCode stack)
    {glyphs : List Glyph} (tree : Tree) (same : faultOf stop stack glyphs = faultOf stop stack left)
    (shorter : left.length < glyphs.length) (enough : glyphs.length < fuel + 1) :
    Follows (faultOf stop stack glyphs) (fun read : List Tree × List Glyph =>
      faultOf stop stack glyphs = faultOf stop stack read.2 ∧ AtClosing read.2 ∧
        read.2.length ≤ glyphs.length) (do
      let (trees, rest) ← readTrees stop fuel left
      return (tree.link trees, rest)) := by
  apply Follows.bind (rest_follows trees code same shorter enough)
  rintro ⟨trees, rest⟩ read
  exact read

theorem faultOf_run (unmoved : ∀ glyph rest, glyph.char ∉ marks →
      step stack glyph rest = .ok (stack, rest)) (keeps : Glyph → Bool)
    (plain : ∀ glyph, keeps glyph = true → glyph.char ∉ marks) (glyphs : List Glyph) :
    faultOf stop stack glyphs = faultOf stop stack (glyphs.dropWhile keeps) := by
  induction glyphs with
  | nil => rfl
  | cons glyph rest induction =>
      rw [List.dropWhile_cons]
      split
      next kept => rw [faultOf_moved (unmoved glyph rest (plain glyph kept)), induction]
      next => rfl

theorem skipLine_length (glyphs : List Glyph) : (skipLine glyphs).length ≤ glyphs.length :=
  (List.dropWhile_suffix _).length_le

theorem string_follows {fuel : Nat} (trees : TreesFollow stop fuel)
    (strings : StringFollows stop fuel) (code : InCode stack) {form : Quotation}
    (quoted : IsQuote form.quote) {glyphs : List Glyph} (start : Location)
    (pushed : faultOf stop stack glyphs = faultOf stop (.string form :: stack) left)
    (shorter : left.length < glyphs.length) (enough : glyphs.length < fuel + 1) :
    Follows (faultOf stop stack glyphs) (fun read : List Tree × List Glyph =>
      faultOf stop stack glyphs = faultOf stop stack read.2 ∧ AtClosing read.2 ∧
        read.2.length ≤ glyphs.length) (do
      let (parts, last, rest) ← readString stop fuel form left
      let (trees, rest) ← readTrees stop fuel rest
      return (link (.string ⟨start, last⟩ parts) trees, rest)) := by
  have follows := strings form stack left quoted (by omega)
  rw [← pushed] at follows
  apply Follows.bind follows
  rintro ⟨parts, last, rest⟩ ⟨popped, shorterRest⟩
  exact linked_follows trees code _ popped (Nat.lt_of_le_of_lt shorterRest shorter) enough

theorem trees_follow_step {fuel : Nat} (trees : TreesFollow stop fuel)
    (strings : StringFollows stop fuel) : TreesFollow stop (fuel + 1) := by
  intro stack glyphs code enough
  cases glyphs with
  | nil => exact ⟨rfl, by simp [AtClosing], Nat.le_refl _⟩
  | cons glyph rest =>
      have moves {glyph : Glyph} {rest left : List Glyph} {after : List Open}
          (moved : inCode stack glyph rest = .ok (after, left)) :
          faultOf stop stack (glyph :: rest) = faultOf stop after left :=
        faultOf_moved ((step_code code).trans moved)
      have passes (keeps : Glyph → Bool) (plain : ∀ glyph, keeps glyph = true → glyph.char ∉ marks)
          (glyphs : List Glyph) :
          faultOf stop stack glyphs = faultOf stop stack (glyphs.dropWhile keeps) :=
        faultOf_run (fun _ _ plain => (step_code code).trans (inCode_unmarked plain)) keeps plain glyphs
      have fits := Lead.fits_ofChar glyph.char
      have shorter : rest.length < (glyph :: rest).length := Nat.lt_succ_self _
      cases begins glyph rest with
      | closing delimiter lead =>
          rw [lead] at fits
          rw [readTrees_closing lead]
          refine ⟨rfl, ?_, Nat.le_refl _⟩
          intro first head
          obtain rfl := Option.some.inj head
          exact ⟨delimiter, fits⟩
      | opening delimiter lead =>
          rw [lead] at fits
          rw [readTrees_opening lead]
          have pushed : faultOf stop stack (glyph :: rest) =
              faultOf stop (.group delimiter :: stack) rest := moves (inCode_opening fits)
          rw [pushed]
          apply group_follows trees delimiter glyph (Nat.lt_of_succ_lt_succ enough)
          -- The pop at the closing bracket brings back the stack that the group was met with.
          intro closed left shorterLeft popped
          rw [← pushed]
          exact linked_follows trees code closed (pushed.trans popped)
            (Nat.lt_of_le_of_lt shorterLeft shorter) enough
      | line lead =>
          rw [lead] at fits
          rw [readTrees_line lead]
          exact rest_follows trees code (moves (inCode_comment fits))
            (Nat.lt_of_le_of_lt (skipLine_length rest) shorter) enough
      | @block next behind angle hash =>
          rw [readTrees_block angle hash]
          have moved : inCode stack glyph (next :: behind) = _ := inCode_block angle hash
          cases closed : skipBlock? behind with
          | none =>
              rw [closed] at moved
              exact faultOf_stuck ((step_code code).trans moved)
          | some left =>
              rw [closed] at moved
              have length := pastMark_length ((pastMark_eq_skipBlock behind).trans closed)
              refine rest_follows trees code (moves moved) ?_ enough
              simp only [List.length_cons]
              omega
      | blank lead =>
          rw [lead] at fits
          rw [readTrees_blank lead]
          exact rest_follows trees code (moves (inCode_unmarked (not_mark_of_blank fits.1)))
            shorter enough
      | @here next behind lead quoted =>
          rw [lead] at fits
          rw [readTrees_here lead quoted]
          exact string_follows trees strings code quoted _ (moves (inCode_here fits quoted))
            (Nat.lt_succ_of_lt (Nat.lt_succ_self _)) enough
      | quote lead =>
          rw [lead] at fits
          have quoted : IsQuote glyph.char := fits
          have pushed : faultOf stop stack (glyph :: rest) =
              faultOf stop (.string ⟨glyph.span.start, glyph.char, false⟩ :: stack) rest :=
            moves (inCode_quote quoted)
          rw [readTrees_quote lead]
          exact string_follows trees strings code quoted _ pushed shorter enough
      | word lead =>
          rw [lead] at fits
          rw [readTrees_word lead]
          have plain := not_mark_of_continues (continuesWord_of_starts fits)
          refine linked_follows trees code _ ((moves (inCode_unmarked plain)).trans
            (passes _ (fun _ continues => not_mark_of_continues continues) rest)) ?_ enough
          exact Nat.lt_of_le_of_lt (List.dropWhile_suffix _).length_le shorter
      | number lead =>
          rw [lead] at fits
          rw [readTrees_number lead]
          have plain := not_mark_of_continues (continuesWord_of_digit fits)
          refine linked_follows trees code _ ((moves (inCode_unmarked plain)).trans
            (passes _ (fun _ digit => not_mark_of_continues (continuesWord_of_digit digit)) rest))
            ?_ enough
          exact Nat.lt_of_le_of_lt (List.dropWhile_suffix _).length_le shorter
      | symbol alone =>
          rw [readTrees_symbol alone]
          exact linked_follows trees code _ (moves (inCode_symbol alone)) shorter enough

theorem restString_follows {fuel : Nat} (strings : StringFollows stop fuel) {form : Quotation}
    (quoted : IsQuote form.quote) {glyphs : List Glyph}
    (same : faultOf stop (.string form :: stack) glyphs = faultOf stop (.string form :: stack) left)
    (shorter : left.length < glyphs.length) (enough : glyphs.length < fuel + 1) :
    Follows (faultOf stop (.string form :: stack) glyphs)
      (fun read : List Tree × Location × List Glyph =>
        faultOf stop (.string form :: stack) glyphs = faultOf stop stack read.2.2 ∧
          read.2.2.length ≤ glyphs.length) (readString stop fuel form left) := by
  have follows := strings form stack left quoted (by omega)
  rw [same]
  cases outcome : readString stop fuel form left with
  | error error =>
      rw [outcome] at follows
      exact follows
  | ok read =>
      rw [outcome] at follows
      obtain ⟨faults, length⟩ := follows
      exact ⟨faults, by omega⟩

theorem string_follows_step {fuel : Nat} (trees : TreesFollow stop fuel)
    (strings : StringFollows stop fuel) : StringFollows stop (fuel + 1) := by
  intro form stack glyphs quotes enough
  cases glyphs with
  | nil =>
      rw [readString_nil]
      exact faultOf_nil
  | cons glyph rest =>
      have moves {glyph : Glyph} {rest left : List Glyph} {after : List Open}
          (moved : inString form stack glyph rest = (after, left)) :
          faultOf stop (.string form :: stack) (glyph :: rest) = faultOf stop after left :=
        faultOf_moved (congrArg Except.ok moved)
      have shorter : rest.length < (glyph :: rest).length := Nat.lt_succ_self _
      cases goes form glyph rest with
      | escape backtick double =>
          rw [readString_escape backtick double]
          refine restString_follows strings quotes (moves (inString_escape ⟨backtick, double⟩)) ?_ enough
          exact Nat.lt_of_le_of_lt (by simp) shorter
      | @close _ left last plain quoted closes =>
          rw [readString_close plain quoted closes]
          have moved : inString form stack glyph rest = (stack, left) :=
            inString_close plain quoted closes
          have length := inString_length form stack glyph rest
          rw [moved] at length
          exact ⟨moves moved, Nat.le_succ_of_le length⟩
      | stay plain quoted stays =>
          rw [readString_stay plain quoted stays]
          have moved : inString form stack glyph rest = _ := inString_quote plain quoted stays
          have length := inString_length form stack glyph rest
          rw [moved] at length
          exact restString_follows strings quotes (moves moved) (Nat.lt_of_le_of_lt length shorter)
            enough
      | @group next behind delimiter dollar double lead round =>
          have opens := Lead.fits_ofChar next.char
          rw [lead] at opens
          have pushed : faultOf stop (.string form :: stack) (glyph :: next :: behind) =
              faultOf stop (.group delimiter :: .string form :: stack) behind :=
            moves (inString_group ⟨dollar, double⟩ opens round)
          rw [readString_group dollar double lead round, pushed]
          apply group_follows trees delimiter next (by simp only [List.length_cons] at enough; omega)
          intro closed left shorterLeft popped
          rw [← pushed]
          refine Follows.bind (restString_follows strings quotes (pushed.trans popped) ?_ enough) ?_
          · simp only [List.length_cons]
            omega
          · exact fun _ read => read
      | @word next behind dollar double lead =>
          have starts := Lead.fits_ofChar next.char
          rw [lead] at starts
          have plain := not_mark_of_continues (continuesWord_of_starts starts)
          have unmoved (glyph : Glyph) (rest : List Glyph) (plain : glyph.char ∉ marks) :
              step (.string form :: stack) glyph rest = .ok (.string form :: stack, rest) :=
            congrArg Except.ok (inString_unmarked quotes plain)
          -- The machine knows no words: it passes over the dollar sign and every letter by itself.
          have passed : faultOf stop (.string form :: stack) (glyph :: next :: behind) =
              faultOf stop (.string form :: stack) (next :: behind) := by
            apply moves
            apply inString_pass (not_escape_of_dollar dollar) (not_quote_of_dollar dollar double)
            intro _ other head
            obtain rfl := Option.some.inj head
            constructor
            · exact fun paren => plain (paren ▸ by decide)
            · exact fun brace => plain (brace ▸ by decide)
          have same := passed.trans ((faultOf_moved (unmoved next behind plain)).trans
            (faultOf_run unmoved _ (fun _ continues => not_mark_of_continues continues) behind))
          rw [readString_word dollar double lead]
          refine Follows.bind (restString_follows strings quotes same ?_ enough) ?_
          · exact Nat.lt_of_le_of_lt (List.dropWhile_suffix _).length_le
              (Nat.lt_succ_of_lt (Nat.lt_succ_self _))
          · exact fun _ read => read
      | pass plain unquoted bare =>
          rw [readString_pass plain unquoted bare]
          refine restString_follows strings quotes (moves (inString_pass plain unquoted ?_)) shorter
            enough
          intro dollar next head
          exact ⟨(bare dollar next head).1, (bare dollar next head).2.1⟩

/-- The fuel is never used up, so both readers follow the machine on everything it can reach. -/
theorem readers_follow (stop : Location) (fuel : Nat) :
    TreesFollow stop fuel ∧ StringFollows stop fuel := by
  induction fuel with
  | zero => exact ⟨fun _ _ _ none => by omega, fun _ _ _ _ none => by omega⟩
  | succ fuel induction =>
      exact ⟨trees_follow_step induction.1 induction.2, string_follows_step induction.1 induction.2⟩

theorem fault_eq_none_iff (stop : Location) {outcome : Except SyntaxError (List Open)} :
    fault? stop outcome = none ↔ outcome = .ok [] := by
  cases outcome with
  | error error => simp [fault?]
  | ok stack =>
      cases stack with
      | nil => simp [fault?]
      | cons top below => cases top <;> simp [fault?]

end Machine

open Machine in
theorem read_follows (source : Text) :
    Follows (faultOf source.stop [] source.glyphs)
      (fun _ => faultOf source.stop [] source.glyphs = none) (read source) := by
  have follows := (readers_follow source.stop (source.glyphs.length + 1)).1 [] source.glyphs trivial
    (Nat.lt_succ_self _)
  rw [read]
  cases outcome : readTrees source.stop (source.glyphs.length + 1) source.glyphs with
  | error error =>
      rw [outcome] at follows
      exact follows
  | ok found =>
      obtain ⟨trees, left⟩ := found
      rw [outcome] at follows
      obtain ⟨same, closing, -⟩ := follows
      cases left with
      | nil => exact same.trans faultOf_nil
      | cons last behind =>
          obtain ⟨delimiter, closes⟩ := closing last rfl
          have code : InCode [] := trivial
          exact same.trans (faultOf_stuck ((step_code code).trans (inCode_stray closes)))

/-- A text is read exactly when the machine ends on it with nothing open, and any other text is
refused with the fault, and at the place, at which the machine finds it wrong. The wording of a
refusal is that of its fault. -/
theorem read_agrees_with_machine (source : Text) :
    ((∃ trees, read source = .ok trees) ↔ Machine.run [] source.glyphs = .ok []) ∧
      ∀ error, read source = .error error ↔
        Machine.fault? source.stop (Machine.run [] source.glyphs) = some error := by
  have follows := read_follows source
  rw [← Machine.fault_eq_none_iff source.stop]
  cases outcome : read source with
  | error found =>
      rw [outcome] at follows
      have faulty : Machine.fault? source.stop (Machine.run [] source.glyphs) = some found := follows
      simp [faulty]
  | ok trees =>
      rw [outcome] at follows
      have sound : Machine.fault? source.stop (Machine.run [] source.glyphs) = none := follows
      simp [sound]

end ScopeLint.Tree
