import Mathlib.Logic.Function.Iterate
import ScopeLint.Proofs.Tree.Coverage
import ScopeLint.Tree.Scanner

/-!
What a scanner reads. One that has all characters at hand is followed along the reader with fuel: whatever
that one reads of a stream, a string or a group, the scanner comes to by some steps, and where that one fails
the scanner finishes with the same fault. The scanner has no fuel: that it needs none is what this shows of it.
-/

namespace ScopeLint.Tree.Scanner

open CharReader

def upon (stop : Location) (left : List Glyph) (activity : Activity) : Scanner Cursor :=
  ⟨.reading activity, ⟨left, stop⟩⟩

def Reaches (scanner later : Scanner Cursor) : Prop := ∃ count, Scanner.advance^[count] scanner = later

variable {scanner middle later : Scanner Cursor}

theorem Reaches.refl (scanner : Scanner Cursor) : Reaches scanner scanner := ⟨0, rfl⟩

theorem Reaches.step (steps : scanner.advance = middle) (reaches : Reaches middle later) :
    Reaches scanner later := by
  obtain ⟨count, same⟩ := reaches
  subst steps
  exact ⟨count + 1, same⟩

theorem Reaches.trans (first : Reaches scanner middle) (second : Reaches middle later) :
    Reaches scanner later := by
  obtain ⟨count, rfl⟩ := first
  obtain ⟨more, rfl⟩ := second
  exact ⟨more + count, Function.iterate_add_apply ..⟩

/-- A scanner finishes with the given fault, or comes to where what was read meets a condition. -/
def Comes {Value : Type} (outcome : Except SyntaxError Value) (goal : Value → Scanner Cursor → Prop)
    (scanner : Scanner Cursor) : Prop :=
  match outcome with
  | .error error => ∃ later, Reaches scanner later ∧ later.phase = .finished (.error error)
  | .ok value => ∃ later, Reaches scanner later ∧ goal value later

section Comes

variable {Value Other : Type} {outcome : Except SyntaxError Value}
  {goal : Value → Scanner Cursor → Prop} {fault : SyntaxError}

theorem Comes.fail (fails : scanner.advance.phase = .finished (.error fault)) :
    Comes (.error fault) goal scanner :=
  ⟨scanner.advance, .step rfl (.refl _), fails⟩

theorem Comes.after (reaches : Reaches scanner middle) (comes : Comes outcome goal middle) :
    Comes outcome goal scanner := by
  cases outcome with
  | error error =>
      obtain ⟨later, further, finished⟩ := comes
      exact ⟨later, reaches.trans further, finished⟩
  | ok value =>
      obtain ⟨later, further, met⟩ := comes
      exact ⟨later, reaches.trans further, met⟩

theorem Comes.step (steps : scanner.advance = middle) (comes : Comes outcome goal middle) :
    Comes outcome goal scanner :=
  comes.after (.step steps (.refl _))

theorem Comes.bind {continues : Value → Except SyntaxError Other} {aim : Other → Scanner Cursor → Prop}
    (comes : Comes outcome goal scanner)
    (second : ∀ value later, goal value later → Comes (continues value) aim later) :
    Comes (outcome >>= continues) aim scanner := by
  cases outcome with
  | error error => exact comes
  | ok value =>
      obtain ⟨later, reaches, met⟩ := comes
      exact (second value later met).after reaches

theorem Comes.imp {aim : Value → Scanner Cursor → Prop} (comes : Comes outcome goal scanner)
    (weaker : ∀ value later, goal value later → aim value later) : Comes outcome aim scanner := by
  cases outcome with
  | error error => exact comes
  | ok value =>
      obtain ⟨later, reaches, met⟩ := comes
      exact ⟨later, reaches, weaker value later met⟩

end Comes

section Cursors

variable {Value Other : Type} (cursor : Cursor)

theorem bind_cursor (program : StateM Cursor Value) (continues : Value → StateM Cursor Other) :
    (program >>= continues) cursor = continues (program cursor).1 (program cursor).2 := rfl

theorem map_cursor (move : Value → Other) (program : StateM Cursor Value) :
    (move <$> program) cursor = (move (program cursor).1, (program cursor).2) := rfl

theorem pure_cursor (value : Value) : (pure value : StateM Cursor Value) cursor = (value, cursor) := rfl

theorem peek_cursor : (peek : StateM Cursor (Option Char)) cursor = (cursor.peek, cursor) := rfl

theorem peekSecond_cursor :
    (peekSecond : StateM Cursor (Option Char)) cursor = (cursor.peekSecond, cursor) := rfl

theorem next_cursor : (next : StateM Cursor (Option Glyph)) cursor =
    (cursor.rest.head?, { cursor with rest := cursor.rest.tail }) := rfl

theorem place_cursor : (place : StateM Cursor Location) cursor = (cursor.location, cursor) := rfl

end Cursors

attribute [local simp] upon advance bind_cursor map_cursor pure_cursor peek_cursor peekSecond_cursor
  next_cursor place_cursor ite_apply Activity.turnTo

section Steps

variable {stop : Location} {glyph : Glyph} {rest left : List Glyph} {activity : Activity}
  {done : List Tree} {groups : List OpenGroup}

theorem lexeme_step (job : Job) (left : List Glyph)
    (sets : Job.ofChar glyph.char (⟨glyph :: rest, stop⟩ : Cursor) = (job, ⟨left, stop⟩)) :
    (upon stop (glyph :: rest) ⟨.lexeme, done, groups⟩).advance =
      upon stop left ⟨job, done, groups⟩ := by
  simp [Activity.step, Cursor.peek, sets]

theorem group_step {delimiter : Delimiter} (lead : Lead.ofChar glyph.char = .opening delimiter)
    (string : Option OpenString) :
    (upon stop (glyph :: rest) ⟨.group string, done, groups⟩).advance =
      upon stop rest ⟨.stream, [], ⟨delimiter, glyph.span.start, string, done⟩ :: groups⟩ := by
  simp [Activity.step, lead]

theorem comment_step (start : Location) :
    (upon stop (glyph :: rest) ⟨.comment start, done, groups⟩).advance =
      if glyph.char = '#' && nextIs '>' rest then upon stop rest.tail ⟨.lexeme, done, groups⟩
      else upon stop rest ⟨.comment start, done, groups⟩ := by
  by_cases hash : glyph.char = '#'
  · by_cases angle : rest.head?.map Glyph.char = some '>'
    · simp only [nextIs, hash, angle]
      simp [Activity.step, Cursor.peek, hash, angle]
    · simp only [nextIs, hash, angle]
      simp [Activity.step, Cursor.peek, hash, angle]
  · simp [Activity.step, hash]

theorem sign_step : (upon stop (glyph :: rest) ⟨.sign, done, groups⟩).advance =
    if (Cursor.peek ⟨rest, stop⟩).any fun char => char = '\'' || char = '"' then
      upon stop rest ⟨.quote (some glyph.span.start), done, groups⟩
    else upon stop rest ⟨.made none (.symbol '@' glyph.span .alone), done, groups⟩ := by
  split
  next quoted => simp [Activity.step, quoted]
  next alone => simp [Activity.step, alone]

theorem string_step {literal : OpenString} (job : Job) (left : List Glyph)
    (sets : literal.after glyph (⟨rest, stop⟩ : Cursor) = (job, ⟨left, stop⟩)) :
    (upon stop (glyph :: rest) ⟨.string literal, done, groups⟩).advance =
      upon stop left ⟨job, done, groups⟩ := by
  simp [Activity.step, sets]

theorem ended_step (opened : OpenGroup) :
    (upon stop (glyph :: rest) ⟨.ended, done, opened :: groups⟩).advance =
      if glyph.char = opened.delimiter.closing then
        upon stop rest ⟨.made opened.within (.group opened.delimiter ⟨opened.start, glyph.span.stop⟩
          (done.foldr link [])), opened.before, groups⟩
      else ⟨.finished (.error ⟨.wrongClosing opened.delimiter (some glyph.char), glyph.span.start⟩),
        ⟨rest, stop⟩⟩ := by
  split
  next matched => simp [Activity.step, Activity.close, matched]
  next wrong => simp [Activity.step, Activity.close, wrong]

end Steps

section Loops

variable {stop : Location} {glyph : Glyph} {rest left : List Glyph} {activity : Activity}
  {done : List Tree} {groups : List OpenGroup}

/-- A loop passes the characters of a kind one by one, and turns to other work where there are no more. -/
structure Loop (stop : Location) (test : Char → Bool) (activity : Activity)
    (behind : List Glyph → Activity) : Prop where
  passes : ∀ glyph rest, test glyph.char = true →
    (upon stop (glyph :: rest) activity).advance = upon stop rest activity
  ends : ∀ left, (Cursor.peek ⟨left, stop⟩).any test = false →
    (upon stop left activity).advance = upon stop left (behind left)

theorem Loop.reaches {test : Char → Bool} {behind : List Glyph → Activity}
    (loop : Loop stop test activity behind) (left : List Glyph) :
    let last := left.dropWhile fun glyph => test glyph.char
    Reaches (upon stop left activity) (upon stop last (behind last)) := by
  induction left with
  | nil => exact .step (loop.ends [] rfl) (.refl _)
  | cons glyph rest induction =>
      rw [List.dropWhile_cons]
      split
      next kept => exact .step (loop.passes glyph rest kept) induction
      next other => exact .step (loop.ends _ (by simpa [Cursor.peek] using other)) (.refl _)

theorem letters_loop (string : Option OpenString) (start : Location) :
    Loop stop continuesWord ⟨.letters string start, done, groups⟩ fun left =>
      ⟨.made string (.word ⟨start, Cursor.location ⟨left, stop⟩⟩ .alone), done, groups⟩ := by
  constructor
  · intro glyph rest continues
    simp [Activity.step, Cursor.peek, continues]
  · intro left ends
    simp [Activity.step, ends]

theorem digits_loop (start : Location) :
    Loop stop Text.isDigit ⟨.digits start, done, groups⟩ fun left =>
      ⟨.made none (.number ⟨start, Cursor.location ⟨left, stop⟩⟩), done, groups⟩ := by
  constructor
  · intro glyph rest digit
    simp [Activity.step, Cursor.peek, digit]
  · intro left ends
    simp [Activity.step, ends]

theorem line_loop :
    Loop stop (· ≠ '\n') ⟨.line, done, groups⟩ fun _ => ⟨.lexeme, done, groups⟩ := by
  constructor
  · intro glyph rest inLine
    simp only [decide_eq_true_eq] at inLine
    simp [Activity.step, Cursor.peek, inLine]
  · intro left ends
    have line : (Cursor.peek ⟨left, stop⟩).all (· = '\n') = true := by
      cases left with
      | nil => rfl
      | cons glyph rest => simpa [Cursor.peek] using ends
    simp [Activity.step, line]

theorem comment_comes (start : Location) {Other : Type} {goal : Other → Scanner Cursor → Prop}
    {continues : List Glyph → Except SyntaxError Other} (left : List Glyph)
    (second : ∀ rest, rest <:+ left →
      Comes (continues rest) goal (upon stop rest ⟨.lexeme, done, groups⟩)) :
    Comes (match skipBlock? left with
      | none => .error ⟨.openComment, start⟩
      | some rest => continues rest) goal (upon stop left ⟨.comment start, done, groups⟩) := by
  induction left with
  | nil => exact .fail rfl
  | cons glyph rest induction =>
      refine .step (comment_step start) ?_
      rw [skipBlock?]
      by_cases marks : glyph.char = '#' && nextIs '>' rest
      · rw [if_pos marks, if_pos marks]
        exact second rest.tail ((List.tail_suffix _).trans (List.suffix_cons _ _))
      · rw [if_neg marks, if_neg marks]
        exact induction fun left later => second left (later.trans (List.suffix_cons _ _))

end Loops

section Reading

variable {source : Text} {glyph next : Glyph} {rest behind left : List Glyph} {done : List Tree}
  {groups : List OpenGroup} {fuel : Nat}

theorem word_reaches (string : Option OpenString) (lead : Lead.ofChar glyph.char = .word)
    (within : glyph :: rest <:+ source.glyphs) :
    Reaches (upon source.stop (glyph :: rest) ⟨.word string, done, groups⟩)
      (upon source.stop (readWord glyph rest).2
        ⟨.made string (.word (readWord glyph rest).1 .alone), done, groups⟩) := by
  have fits := Lead.fits_ofChar glyph.char
  rw [lead] at fits
  rw [(covers_word within fits).2]
  exact .step rfl ((letters_loop string glyph.span.start).reaches rest)

theorem number_reaches (lead : Lead.ofChar glyph.char = .number)
    (within : glyph :: rest <:+ source.glyphs) :
    Reaches (upon source.stop (glyph :: rest) ⟨.digits glyph.span.start, done, groups⟩)
      (upon source.stop (readNumber glyph rest).2
        ⟨.made none (.number (readNumber glyph rest).1), done, groups⟩) := by
  have fits := Lead.fits_ofChar glyph.char
  rw [lead] at fits
  rw [(covers_number within fits).2]
  have passed : (glyph :: rest).dropWhile (fun glyph => Text.isDigit glyph.char) =
      (readNumber glyph rest).2 := List.dropWhile_cons_of_pos fits
  rw [← passed]
  exact (digits_loop glyph.span.start).reaches (glyph :: rest)

theorem line_reaches (lead : Lead.ofChar glyph.char = .comment) :
    Reaches (upon source.stop (glyph :: rest) ⟨.line, done, groups⟩)
      (upon source.stop (skipLine rest) ⟨.lexeme, done, groups⟩) := by
  have fits := Lead.fits_ofChar glyph.char
  rw [lead] at fits
  have inLine : glyph.char ≠ '\n' := by rw [show glyph.char = '#' from fits]; decide
  have passed : skipLine (glyph :: rest) = skipLine rest :=
    List.dropWhile_cons_of_pos (decide_eq_true inLine)
  rw [← passed]
  exact line_loop.reaches (glyph :: rest)

/-- A stream is at its end, with the lexemes that the reader has found behind those in front. -/
def StreamRead (source : Text) (done : List Tree) (groups : List OpenGroup) (left : List Glyph)
    (read : List Tree × List Glyph) (scanner : Scanner Cursor) : Prop :=
  ∃ whole, scanner = upon source.stop read.2 ⟨.ended, whole, groups⟩ ∧
    whole.foldr link [] = done.foldr link read.1 ∧ read.2 <:+ left

/-- A string has been read, with the parts that the reader has found behind those in front. -/
def StringRead (source : Text) (literal : OpenString) (done : List Tree) (groups : List OpenGroup)
    (left : List Glyph) (read : List Tree × Location × List Glyph) (scanner : Scanner Cursor) : Prop :=
  scanner = upon source.stop read.2.2
      ⟨.made none (.string ⟨literal.form.start, read.2.1⟩ (literal.parts ++ read.1)), done, groups⟩ ∧
    read.2.2 <:+ left

def TreesCome (source : Text) (fuel : Nat) : Prop :=
  ∀ done groups left, left <:+ source.glyphs → left.length < fuel →
    Comes (readTrees source.stop fuel left) (StreamRead source done groups left)
      (upon source.stop left ⟨.lexeme, done, groups⟩)

def StringComes (source : Text) (fuel : Nat) : Prop :=
  ∀ literal done groups left, left <:+ source.glyphs → left.length < fuel →
    Comes (readString source.stop fuel literal.form left) (StringRead source literal done groups left)
      (upon source.stop left ⟨.string literal, done, groups⟩)

theorem rest_comes (trees : TreesCome source fuel) (within : glyph :: rest <:+ source.glyphs)
    (later : left <:+ rest) (enough : (glyph :: rest).length < fuel + 1) :
    Comes (readTrees source.stop fuel left) (StreamRead source done groups (glyph :: rest))
      (upon source.stop left ⟨.lexeme, done, groups⟩) := by
  have behind : left <:+ glyph :: rest := later.trans (List.suffix_cons _ _)
  have shorter := later.length_le
  rw [List.length_cons] at enough
  refine (trees done groups left (behind.trans within) (by omega)).imp ?_
  rintro read scanner ⟨whole, same, linked, last⟩
  exact ⟨whole, same, linked, last.trans behind⟩

theorem linked_comes (trees : TreesCome source fuel) (within : glyph :: rest <:+ source.glyphs)
    (later : left <:+ rest) (enough : (glyph :: rest).length < fuel + 1) (tree : Tree) :
    Comes (do
      let (trees, rest) ← readTrees source.stop fuel left
      return (tree.link trees, rest)) (StreamRead source done groups (glyph :: rest))
      (upon source.stop left ⟨.made none tree, done, groups⟩) := by
  have put : (upon source.stop left ⟨.made none tree, done, groups⟩).advance =
      upon source.stop left ⟨.stream, done ++ [tree], groups⟩ := rfl
  refine .step put (.step rfl ?_)
  refine (rest_comes trees within later enough).bind ?_
  rintro ⟨others, last⟩ scanner ⟨whole, rfl, linked, behind⟩
  rw [List.foldr_append] at linked
  exact ⟨_, .refl _, whole, rfl, linked, behind⟩

theorem closeGroup_comes {opened : OpenGroup} (same : opened.start = glyph.span.start) :
    Comes (closeGroup source.stop opened.delimiter glyph (done.foldr link []) left)
      (fun read scanner => read.2 <:+ left ∧ scanner =
        upon source.stop read.2 ⟨.made opened.within read.1, opened.before, groups⟩)
      (upon source.stop left ⟨.ended, done, opened :: groups⟩) := by
  cases left with
  | nil => exact .fail rfl
  | cons last behind =>
      rw [closeGroup, ← same]
      split
      next matched =>
        refine ⟨_, .step ?_ (.refl _), List.suffix_cons _ _, rfl⟩
        rw [ended_step, if_pos matched]
      next wrong =>
        apply Comes.fail
        rw [ended_step, if_neg wrong]

theorem group_comes (trees : TreesCome source fuel) (within : glyph :: rest <:+ source.glyphs)
    (enough : rest.length < fuel) {delimiter : Delimiter}
    (lead : Lead.ofChar glyph.char = .opening delimiter) {string : Option OpenString} {Other : Type}
    {goal : Other → Scanner Cursor → Prop} {continues : Tree × List Glyph → Except SyntaxError Other}
    (second : ∀ closed left, left <:+ rest →
      Comes (continues (closed, left)) goal (upon source.stop left ⟨.made string closed, done, groups⟩)) :
    Comes (do
      let (body, rest) ← readTrees source.stop fuel rest
      let read ← closeGroup source.stop delimiter glyph body rest
      continues read) goal (upon source.stop (glyph :: rest) ⟨.group string, done, groups⟩) := by
  let opened : OpenGroup := ⟨delimiter, glyph.span.start, string, done⟩
  refine .step (group_step lead string) (.step rfl ?_)
  refine (trees [] (opened :: groups) rest ((List.suffix_cons _ _).trans within) enough).bind ?_
  rintro ⟨body, left⟩ scanner ⟨whole, rfl, linked, shorter⟩
  obtain rfl : whole.foldr link [] = body := linked
  have same : opened.start = glyph.span.start := rfl
  refine (closeGroup_comes same).bind ?_
  rintro ⟨closed, last⟩ scanner ⟨behind, rfl⟩
  exact second closed last (behind.trans shorter)

theorem string_comes (trees : TreesCome source fuel) (strings : StringComes source fuel)
    (within : glyph :: rest <:+ source.glyphs) (later : left <:+ rest)
    (enough : (glyph :: rest).length < fuel + 1) (form : Quotation) :
    Comes (do
      let (parts, last, rest) ← readString source.stop fuel form left
      let (trees, rest) ← readTrees source.stop fuel rest
      return (link (.string ⟨form.start, last⟩ parts) trees, rest))
      (StreamRead source done groups (glyph :: rest))
      (upon source.stop left ⟨.string ⟨form, []⟩, done, groups⟩) := by
  have inside := (later.trans (List.suffix_cons _ _)).trans within
  have shorter := later.length_le
  rw [List.length_cons] at enough
  refine (strings ⟨form, []⟩ done groups left inside (by omega)).bind ?_
  rintro ⟨parts, last, behind⟩ scanner ⟨rfl, suffix⟩
  exact linked_comes trees within (suffix.trans later) (by rwa [List.length_cons]) _

theorem symbol_reaches (alone : SymbolAt glyph rest) :
    Reaches (upon source.stop (glyph :: rest) ⟨.lexeme, done, groups⟩)
      (upon source.stop rest ⟨.made none (.symbol glyph.char glyph.span .alone), done, groups⟩) := by
  rcases alone with line | ⟨lone, plain⟩
  · have lead : Lead.ofChar glyph.char = .lineEnd := by rw [line]; decide
    refine .step (lexeme_step .symbol (glyph :: rest) ?_) (.step rfl (.refl _))
    rw [Job.ofChar, lead]
    rfl
  · rcases Lead.of_isLone lone with lead | lead
    · have sign : glyph.char = '@' := (lead ▸ Lead.fits_ofChar glyph.char : Lead.Fits _ .atSign)
      have test : (Cursor.peek ⟨rest, source.stop⟩).any
          (fun char => char = '\'' || char = '"') = false := by
        cases rest with
        | nil => rfl
        | cons next behind => simpa [Cursor.peek, IsQuote, sign] using (plain next rfl).2
      refine .step (lexeme_step .sign (glyph :: rest) ?_) (.step ?_ (.refl _))
      · rw [Job.ofChar, lead]
        rfl
      · rw [sign_step, test, sign]
        rfl
    · refine .step (lexeme_step .symbol (glyph :: rest) ?_) (.step rfl (.refl _))
      rw [Job.ofChar, lead]
      by_cases angle : glyph.char = '<'
      · have test : Cursor.peekSecond ⟨glyph :: rest, source.stop⟩ ≠ some '#' := by
          cases rest with
          | nil => simp [Cursor.peekSecond]
          | cons next behind => simpa [Cursor.peekSecond, angle] using (plain next rfl).1
        simp [angle, test]
      · simp [angle]

theorem trees_come_step (trees : TreesCome source fuel) (strings : StringComes source fuel) :
    TreesCome source (fuel + 1) := by
  intro done groups left within enough
  cases left with
  | nil =>
      rw [readTrees_nil]
      exact ⟨_, .step rfl (.refl _), done, rfl, rfl, List.suffix_refl _⟩
  | cons glyph rest =>
      have stays : rest <:+ rest := List.suffix_refl rest
      cases begins glyph rest with
      | closing delimiter lead =>
          rw [readTrees_closing lead]
          refine ⟨_, .step (lexeme_step .ended (glyph :: rest) ?_) (.refl _), done, rfl, rfl, ?_⟩
          · simp [Job.ofChar, lead]
          · exact List.suffix_refl _
      | opening delimiter lead =>
          rw [readTrees_opening lead]
          refine .step (lexeme_step (.group none) (glyph :: rest) ?_) ?_
          · simp [Job.ofChar, lead]
          · refine group_comes trees within (Nat.lt_of_succ_lt_succ enough) lead ?_
            exact fun closed left later => linked_comes trees within later enough closed
      | line lead =>
          rw [readTrees_line lead]
          refine .step (lexeme_step .line (glyph :: rest) ?_) ?_
          · simp [Job.ofChar, lead]
          · exact (rest_comes trees within (List.dropWhile_suffix _) enough).after (line_reaches lead)
      | @block next behind angle hash =>
          have lead : Lead.ofChar glyph.char = .other := by rw [angle]; decide
          rw [readTrees_block angle hash]
          refine .step (lexeme_step .block (glyph :: next :: behind) ?_) ?_
          · rw [Job.ofChar, lead]
            simp [angle, hash, Cursor.peekSecond]
          · have opens : (upon source.stop (glyph :: next :: behind) ⟨.block, done, groups⟩).advance =
                upon source.stop behind ⟨.comment glyph.span.start, done, groups⟩ := rfl
            refine .step opens (comment_comes glyph.span.start behind fun left later => ?_)
            exact rest_comes trees within (later.trans (List.suffix_cons next behind)) enough
      | blank lead =>
          rw [readTrees_blank lead]
          refine .step (lexeme_step .lexeme rest ?_) ?_
          · simp [Job.ofChar, lead]
          · exact rest_comes trees within stays enough
      | @here next behind lead quoted =>
          rw [readTrees_here lead quoted]
          refine .step (lexeme_step .sign (glyph :: next :: behind) ?_) ?_
          · simp [Job.ofChar, lead]
          · have test : (next.char = '\'' || next.char = '"') = true := by simpa [IsQuote] using quoted
            refine .step (sign_step.trans (if_pos test)) (.step rfl ?_)
            exact string_comes trees strings within (List.suffix_cons _ _) enough _
      | quote lead =>
          rw [readTrees_quote lead]
          refine .step (lexeme_step (.quote none) (glyph :: rest) ?_) (.step rfl ?_)
          · simp [Job.ofChar, lead]
          · exact string_comes trees strings within stays enough _
      | word lead =>
          rw [readTrees_word lead]
          refine .step (lexeme_step (.word none) (glyph :: rest) ?_) ?_
          · simp [Job.ofChar, lead]
          · exact (linked_comes trees within (List.dropWhile_suffix _) enough _).after
              (word_reaches none lead within)
      | number lead =>
          rw [readTrees_number lead]
          refine .step (lexeme_step (.digits glyph.span.start) (glyph :: rest) ?_) ?_
          · simp [Job.ofChar, lead, Cursor.location]
          · exact (linked_comes trees within (List.dropWhile_suffix _) enough _).after
              (number_reaches lead within)
      | symbol alone =>
          rw [readTrees_symbol alone]
          exact (linked_comes trees within stays enough _).after (symbol_reaches alone)

theorem resting_comes (strings : StringComes source fuel) (literal : OpenString)
    (within : glyph :: rest <:+ source.glyphs) (later : left <:+ rest)
    (enough : (glyph :: rest).length < fuel + 1) :
    Comes (readString source.stop fuel literal.form left) (StringRead source literal done groups (glyph :: rest))
      (upon source.stop left ⟨.string literal, done, groups⟩) := by
  have behind : left <:+ glyph :: rest := later.trans (List.suffix_cons _ _)
  have shorter := later.length_le
  rw [List.length_cons] at enough
  refine (strings literal done groups left (behind.trans within) (by omega)).imp ?_
  rintro read scanner ⟨same, last⟩
  exact ⟨same, last.trans behind⟩

theorem part_comes (strings : StringComes source fuel) {literal : OpenString}
    (within : glyph :: rest <:+ source.glyphs) (later : left <:+ rest)
    (enough : (glyph :: rest).length < fuel + 1) (part : Tree) :
    Comes (do
      let (parts, last, rest) ← readString source.stop fuel literal.form left
      return (part :: parts, last, rest)) (StringRead source literal done groups (glyph :: rest))
      (upon source.stop left ⟨.made (some literal) part, done, groups⟩) := by
  have added : (upon source.stop left ⟨.made (some literal) part, done, groups⟩).advance =
      upon source.stop left ⟨.string (literal.add part), done, groups⟩ := rfl
  refine .step added ((resting_comes strings (literal.add part) within later enough).bind ?_)
  rintro ⟨parts, last, left⟩ scanner ⟨rfl, behind⟩
  refine ⟨_, .refl _, ?_, behind⟩
  simp [OpenString.add]

theorem lead_of_starts {char : Char} (starts : startsWord char = true) : Lead.ofChar char = .word := by
  have plain := not_mark_of_continues (continuesWord_of_starts starts)
  have inLine : char ≠ '\n' := by
    rintro rfl
    exact absurd starts (by decide)
  simp only [marks, brackets, List.cons_append, List.nil_append, List.mem_cons, not_or] at plain
  simp [Lead.ofChar, plain, inLine, starts]

section Characters

variable {literal : OpenString}

theorem after_escape (backtick : glyph.char = '\x60') (double : literal.form.quote = '"') :
    literal.after glyph (⟨rest, source.stop⟩ : Cursor) = (.string literal, ⟨rest.tail, source.stop⟩) := by
  simp [OpenString.after, Quotation.expands, backtick, double]

theorem afterQuote_close {last : Location} (within : glyph :: rest <:+ source.glyphs)
    (closes : literal.form.close? glyph rest = some (last, left)) :
    literal.afterQuote glyph (⟨rest, source.stop⟩ : Cursor) =
      (.made none (literal.close last), ⟨left, source.stop⟩) ∧ left <:+ rest := by
  unfold Quotation.close? at closes
  unfold OpenString.afterQuote
  by_cases here : literal.form.here
  · rw [if_pos here] at closes ⊢
    cases rest with
    | nil => cases closes
    | cons next behind =>
        dsimp only at closes
        split at closes
        next marks =>
          obtain ⟨rfl, rfl⟩ := Prod.mk.inj (Option.some.inj closes)
          have inside := (List.suffix_cons _ _).trans within
          rw [Text.stop_eq_placeOf inside]
          simp only [Bool.and_eq_true, decide_eq_true_eq] at marks
          refine ⟨?_, List.suffix_cons _ _⟩
          simp [marks, Cursor.peek, Text.placeOf]
        next => cases closes
  · rw [if_neg here] at closes ⊢
    split at closes
    next => cases closes
    next single =>
      obtain ⟨rfl, rfl⟩ := Prod.mk.inj (Option.some.inj closes)
      rw [Text.stop_eq_placeOf within]
      simp only [nextIs, decide_eq_true_eq] at single
      refine ⟨?_, List.suffix_refl _⟩
      simp [single, Cursor.peek, Text.placeOf]

theorem afterQuote_stay (stays : literal.form.close? glyph rest = none) :
    literal.afterQuote glyph (⟨rest, source.stop⟩ : Cursor) =
      (.string literal, ⟨literal.form.afterQuote rest, source.stop⟩) := by
  unfold Quotation.close? at stays
  unfold OpenString.afterQuote Quotation.afterQuote
  by_cases here : literal.form.here
  · rw [if_pos here] at stays ⊢
    rw [if_pos here]
    by_cases first : glyph.span.start.col = 1
    · have sign : Cursor.peek ⟨rest, source.stop⟩ ≠ some '@' := by
        cases rest with
        | nil => simp [Cursor.peek]
        | cons next behind => simpa [first, Cursor.peek] using stays
      simp [first, sign]
    · simp [first]
  · rw [if_neg here] at stays ⊢
    rw [if_neg here]
    split at stays
    next doubled =>
      simp only [nextIs, decide_eq_true_eq] at doubled
      simp [Cursor.peek, doubled]
    next => cases stays

section Unescaped

variable (plain : ¬ (glyph.char = '\x60' ∧ literal.form.quote = '"'))

include plain

theorem not_escape : ¬ (glyph.char = '\x60' ∧ literal.form.expands = true) := by
  simpa using unescaped plain

theorem after_close (quoted : glyph.char = literal.form.quote) {last : Location}
    (within : glyph :: rest <:+ source.glyphs)
    (closes : literal.form.close? glyph rest = some (last, left)) :
    literal.after glyph (⟨rest, source.stop⟩ : Cursor) =
      (.made none (literal.close last), ⟨left, source.stop⟩) := by
  rw [OpenString.after, if_neg (not_escape plain), if_pos quoted, (afterQuote_close within closes).1]

theorem after_stay (quoted : glyph.char = literal.form.quote)
    (stays : literal.form.close? glyph rest = none) :
    literal.after glyph (⟨rest, source.stop⟩ : Cursor) =
      (.string literal, ⟨literal.form.afterQuote rest, source.stop⟩) := by
  rw [OpenString.after, if_neg (not_escape plain), if_pos quoted, afterQuote_stay stays]

theorem after_pass (unquoted : glyph.char ≠ literal.form.quote)
    (bare : glyph.char = '$' ∧ literal.form.quote = '"' → ∀ next ∈ rest.head?,
      next.char ≠ '(' ∧ next.char ≠ '\x7b' ∧ Lead.ofChar next.char ≠ .word) :
    literal.after glyph (⟨rest, source.stop⟩ : Cursor) = (.string literal, ⟨rest, source.stop⟩) := by
  rw [OpenString.after, if_neg (not_escape plain), if_neg unquoted]
  split
  next dollar =>
    simp only [Quotation.expands, decide_eq_true_eq] at dollar
    cases rest with
    | nil => rfl
    | cons next behind =>
        obtain ⟨noParen, noBrace, noWord⟩ := bare dollar next rfl
        have noStart : ¬ startsWord next.char = true := fun starts => noWord (lead_of_starts starts)
        simp [Cursor.peek, noParen, noBrace, noStart]
  next => rfl

end Unescaped

section Dollar

variable (dollar : glyph.char = '$') (double : literal.form.quote = '"')

include dollar double

theorem after_dollar : literal.after glyph (⟨next :: behind, source.stop⟩ : Cursor) =
    (if next.char = '(' ∨ next.char = '\x7b' then .group (some literal)
      else if startsWord next.char then .word (some literal) else .string literal,
      ⟨next :: behind, source.stop⟩) := by
  have expands : literal.form.expands = true := by simpa [Quotation.expands] using double
  rw [OpenString.after, if_neg (not_escape (not_escape_of_dollar dollar)),
    if_neg (not_quote_of_dollar dollar double), if_pos ⟨dollar, expands⟩]
  simp only [bind_cursor, peek_cursor, Cursor.peek, List.head?_cons, Option.map_some]
  split
  next => rfl
  next => split <;> rfl

theorem after_group {delimiter : Delimiter} (lead : Lead.ofChar next.char = .opening delimiter)
    (round : delimiter ≠ .bracket) :
    literal.after glyph (⟨next :: behind, source.stop⟩ : Cursor) =
      (.group (some literal), ⟨next :: behind, source.stop⟩) := by
  have fits := Lead.fits_ofChar next.char
  rw [lead] at fits
  have opens : next.char = '(' ∨ next.char = '\x7b' := by
    cases delimiter with
    | paren => exact .inl fits
    | brace => exact .inr fits
    | bracket => exact absurd rfl round
  rw [after_dollar dollar double, if_pos opens]

theorem after_word (lead : Lead.ofChar next.char = .word) :
    literal.after glyph (⟨next :: behind, source.stop⟩ : Cursor) =
      (.word (some literal), ⟨next :: behind, source.stop⟩) := by
  have fits := Lead.fits_ofChar next.char
  rw [lead] at fits
  have starts : startsWord next.char = true := fits
  have plain := not_mark_of_continues (continuesWord_of_starts starts)
  simp only [marks, brackets, List.cons_append, List.mem_cons, not_or] at plain
  rw [after_dollar dollar double, if_neg (by simp [plain]), if_pos starts]

end Dollar

end Characters

theorem string_comes_step (trees : TreesCome source fuel) (strings : StringComes source fuel) :
    StringComes source (fuel + 1) := by
  intro literal done groups left within enough
  cases left with
  | nil =>
      rw [readString_nil]
      exact .fail rfl
  | cons glyph rest =>
      cases goes literal.form glyph rest with
      | escape backtick double =>
          rw [readString_escape backtick double]
          refine .step (string_step _ _ (after_escape backtick double)) ?_
          exact resting_comes strings literal within (List.tail_suffix _) enough
      | @close _ left last plain quoted closes =>
          rw [readString_close plain quoted closes]
          refine ⟨_, .step (string_step _ _ (after_close plain quoted within closes)) (.refl _), ?_, ?_⟩
          · simp [OpenString.close]
          · exact (afterQuote_close within closes).2.trans (List.suffix_cons _ _)
      | stay plain quoted stays =>
          rw [readString_stay plain quoted stays]
          refine .step (string_step _ _ (after_stay plain quoted stays)) ?_
          exact resting_comes strings literal within (suffix_afterQuote literal.form rest) enough
      | @group next behind delimiter dollar double lead round =>
          have inside := (List.suffix_cons _ _).trans within
          rw [readString_group dollar double lead round]
          refine .step (string_step _ _ (after_group dollar double lead round)) ?_
          refine group_comes trees inside (Nat.lt_of_succ_lt (Nat.lt_of_succ_lt_succ enough)) lead ?_
          intro closed left later
          exact part_comes strings within (later.trans (List.suffix_cons _ _)) enough closed
      | @word next behind dollar double lead =>
          have inside := (List.suffix_cons _ _).trans within
          have later : (readWord next behind).2 <:+ next :: behind :=
            (List.dropWhile_suffix _).trans (List.suffix_cons _ _)
          rw [readString_word dollar double lead]
          refine .step (string_step _ _ (after_word dollar double lead)) ?_
          exact (part_comes strings within later enough _).after (word_reaches (some literal) lead inside)
      | pass plain unquoted bare =>
          rw [readString_pass plain unquoted bare]
          refine .step (string_step _ _ (after_pass plain unquoted bare)) ?_
          exact resting_comes strings literal within (List.suffix_refl _) enough

theorem readers_come (source : Text) (fuel : Nat) : TreesCome source fuel ∧ StringComes source fuel := by
  induction fuel with
  | zero => exact ⟨fun _ _ _ _ enough => absurd enough (Nat.not_lt_zero _),
      fun _ _ _ _ _ enough => absurd enough (Nat.not_lt_zero _)⟩
  | succ fuel induction =>
      obtain ⟨trees, strings⟩ := induction
      exact ⟨trees_come_step trees strings, string_comes_step trees strings⟩

end Reading

theorem scan_add (cursor : Cursor) (count more : Nat) :
    scan cursor (count + more) = Scanner.advance^[more] (scan cursor count) := by
  induction more with
  | zero => rfl
  | succ more induction => rw [Function.iterate_succ_apply', ← induction, ← Nat.add_assoc, scan]

/-- A scanner that has all characters at hand finishes with what reading with fuel comes to. -/
theorem exists_finished (source : Text) :
    ∃ count, (scan (Cursor.ofText source) count).phase = .finished (read source) := by
  have begins : scan (Cursor.ofText source) 1 = upon source.stop source.glyphs ⟨.lexeme, [], []⟩ := rfl
  have comes := (readers_come source (source.glyphs.length + 1)).1 [] [] source.glyphs
    (List.suffix_refl _) (Nat.lt_succ_self _)
  rw [read]
  cases outcome : readTrees source.stop (source.glyphs.length + 1) source.glyphs with
  | error error =>
      rw [outcome] at comes
      obtain ⟨later, ⟨count, rfl⟩, finished⟩ := comes
      rw [← begins, ← scan_add] at finished
      exact ⟨1 + count, finished⟩
  | ok value =>
      obtain ⟨trees, left⟩ := value
      rw [outcome] at comes
      obtain ⟨scanner, ⟨count, same⟩, whole, rfl, linked, -⟩ := comes
      rw [← begins, ← scan_add] at same
      refine ⟨1 + count + 1, ?_⟩
      rw [scan, same]
      obtain rfl : whole.foldr link [] = trees := linked
      cases left <;> rfl

end ScopeLint.Tree.Scanner
