import Mathlib.Data.List.TakeWhile
import ScopeLint.Proofs.Text.Case
import ScopeLint.Proofs.Text.Classes
import ScopeLint.Script.Line

/-!
The grammars of import lines and test cases as they are put together from patterns by a library of
parsers. A pattern takes as much as it can in each step and less if the rest of the pattern does not
match otherwise. The library is known by its laws only: a token is a pattern behind blanks, a sequence
matches part behind part, a choice is its first part that matches, and the end matches nothing but the
end.
-/

namespace ScopeLint

/-- A step of a pattern takes one character, one or none, or any number of them. -/
inductive PatternStep where
  | one (takes : Char → Bool)
  | optional (takes : Char → Bool)
  | many (takes : Char → Bool)

/-- What a step can leave of some characters, in the order in which that is tried. -/
def PatternStep.leaves : PatternStep → List Piece → List (List Piece)
  | one _, [] => []
  | one takes, piece :: rest => if takes piece.char then [rest] else []
  | optional _, [] => [[]]
  | optional takes, piece :: rest =>
      if takes piece.char then [rest, piece :: rest] else [piece :: rest]
  | many _, [] => [[]]
  | many takes, piece :: rest =>
      if takes piece.char then (many takes).leaves rest ++ [piece :: rest] else [piece :: rest]

abbrev Pattern := List PatternStep

namespace Pattern

/-- What the first way to match a pattern leaves. -/
def left? : Pattern → List Piece → Option (List Piece)
  | [], pieces => some pieces
  | step :: rest, pieces => (step.leaves pieces).findSome? (left? rest)

def letters (word : List Char) : Pattern :=
  word.map fun letter => .one fun char => Text.foldChar char = letter

def dropOne (takes : Char → Bool) : List Piece → List Piece
  | [] => []
  | piece :: rest => if takes piece.char then rest else piece :: rest

variable {takes : Char → Bool} {rest : Pattern} {piece : Piece} {pieces : List Piece}

@[simp] theorem left?_nil : left? [] pieces = some pieces := rfl

@[simp] theorem left?_one_nil : left? (.one takes :: rest) [] = none := rfl

@[simp] theorem left?_one_cons :
    left? (.one takes :: rest) (piece :: pieces) = if takes piece.char then left? rest pieces else none := by
  rw [left?, PatternStep.leaves]
  split
  · rw [List.findSome?_singleton]
  · rfl

theorem left?_one : left? (.one takes :: rest) pieces = (left? [.one takes] pieces).bind (left? rest) := by
  cases pieces with
  | nil => rfl
  | cons piece pieces =>
      rw [left?_one_cons, left?_one_cons]
      split <;> rfl

theorem left?_many_last :
    left? [.many takes] pieces = some (pieces.dropWhile fun piece => takes piece.char) := by
  induction pieces with
  | nil => rfl
  | cons piece pieces induction =>
      rw [left?] at induction ⊢
      rw [PatternStep.leaves, List.dropWhile_cons]
      split
      · rw [List.findSome?_append, induction, Option.some_or]
      · rw [List.findSome?_singleton, left?]

/-- A step that takes only what the next one does not take takes all that it can. -/
theorem left?_many (apart : ∀ piece pieces, takes piece.char = true → left? rest (piece :: pieces) = none) :
    left? (.many takes :: rest) pieces = left? rest (pieces.dropWhile fun piece => takes piece.char) := by
  induction pieces with
  | nil => rw [left?, PatternStep.leaves, List.findSome?_singleton, List.dropWhile_nil]
  | cons piece pieces induction =>
      rw [left?] at induction ⊢
      rw [PatternStep.leaves, List.dropWhile_cons]
      split
      next taken =>
        rw [List.findSome?_append, induction, List.findSome?_singleton, apart piece pieces taken,
          Option.or_none]
      next => rw [List.findSome?_singleton]

theorem left?_optional_last : left? [.optional takes] pieces = some (dropOne takes pieces) := by
  cases pieces with
  | nil => rfl
  | cons piece pieces =>
      rw [left?, PatternStep.leaves, dropOne]
      split <;> rfl

theorem left?_optional
    (apart : ∀ piece pieces, takes piece.char = true → left? rest (piece :: pieces) = none) :
    left? (.optional takes :: rest) pieces = left? rest (dropOne takes pieces) := by
  cases pieces with
  | nil => rw [left?, PatternStep.leaves, List.findSome?_singleton, dropOne]
  | cons piece pieces =>
      rw [left?, PatternStep.leaves, dropOne]
      split
      next taken =>
        rw [List.findSome?_cons, List.findSome?_singleton, apart piece pieces taken]
        cases left? rest pieces <;> rfl
      next => rw [List.findSome?_singleton]

theorem left?_letters (word : List Char) :
    left? (letters word ++ rest) pieces = (Line.afterFolded? word pieces).bind (left? rest) := by
  induction word generalizing pieces with
  | nil => rfl
  | cons letter word induction =>
      cases pieces with
      | nil => rfl
      | cons piece pieces =>
          rw [letters, List.map_cons, List.cons_append, left?_one_cons, Line.afterFolded?]
          simp only [decide_eq_true_eq]
          split
          next => exact induction
          next => rfl

theorem left?_word (word : List Char) : left? (letters word) pieces = Line.afterFolded? word pieces := by
  rw [← List.append_nil (letters word), left?_letters]
  exact Option.bind_fun_some _

end Pattern

namespace Line

variable {word : List Char} {pieces front rest : List Piece}

theorem exists_afterFolded (found : afterFolded? word pieces = some rest) :
    ∃ front, pieces = front ++ rest ∧ front.map (fun piece => Text.foldChar piece.char) = word := by
  induction word generalizing pieces with
  | nil =>
      obtain rfl := Option.some.inj found
      exact ⟨[], rfl, rfl⟩
  | cons letter word induction =>
      cases pieces with
      | nil => cases found
      | cons piece pieces =>
          rw [afterFolded?] at found
          split at found
          next same =>
            obtain ⟨front, split, spells⟩ := induction found
            exact ⟨piece :: front, by rw [split, List.cons_append], by rw [List.map_cons, same, spells]⟩
          next => cases found

theorem afterFolded_append (front rest : List Piece) :
    afterFolded? (front.map fun piece => Text.foldChar piece.char) (front ++ rest) = some rest := by
  induction front with
  | nil => rfl
  | cons piece front induction => rw [List.map_cons, List.cons_append, afterFolded?, if_pos rfl, induction]

end Line

/-- The parts of the line grammars that have a name. -/
inductive Terminal where
  | dot
  | importee
  | comment
  | root
  | remainder
  | tested
  | it
  | title
  deriving DecidableEq

inductive ParseNode where
  | terminal (name : Terminal) (value : Text)
  | fields (values : List (Terminal × Text))
  | stop

/-- Parsers, how they are put together, and what one makes of some characters and leaves of them. -/
structure ParserLibrary where
  Parser : Type
  token : Pattern → Terminal → Parser
  sequence : (List ParseNode → ParseNode) → List Parser → Parser
  choice : (List ParseNode → Option ParseNode) → List Parser → Parser
  stop : Parser
  run : Parser → List Piece → Option (ParseNode × List Piece)

namespace ParserLibrary

def isSkipped (char : Char) : Bool := [' ', '\t', '\r', '\n'].contains char

def taken (pieces left : List Piece) : Text :=
  Text.ofPieces (pieces.take (pieces.length - left.length))

variable (library : ParserLibrary)

def runAll : List library.Parser → List Piece → Option (List ParseNode × List Piece)
  | [], pieces => some ([], pieces)
  | parser :: parsers, pieces => do
      let (node, left) ← library.run parser pieces
      let (nodes, left) ← runAll parsers left
      return (node :: nodes, left)

structure Lawful : Prop where
  token (pattern : Pattern) (name : Terminal) (pieces : List Piece) :
    library.run (library.token pattern name) pieces =
      let seen := pieces.dropWhile fun piece => isSkipped piece.char
      (pattern.left? seen).map fun left => (.terminal name (taken seen left), left)
  sequence (fold : List ParseNode → ParseNode) (parsers : List library.Parser) (pieces : List Piece) :
    library.run (library.sequence fold parsers) pieces =
      (library.runAll parsers pieces).map fun (nodes, left) => (fold nodes, left)
  choice (fold : List ParseNode → Option ParseNode) (parsers : List library.Parser)
    (pieces : List Piece) (keeps : ∀ node, fold [node] = some node) :
    library.run (library.choice fold parsers) pieces =
      parsers.findSome? fun parser => library.run parser pieces
  stop (pieces : List Piece) :
    library.run library.stop pieces = if pieces = [] then some (.stop, []) else none

/-- All named parts, in the order in which they were matched. -/
def collect (nodes : List ParseNode) : ParseNode :=
  .fields <| nodes.flatMap fun
    | .terminal name value => [(name, value)]
    | .fields values => values
    | .stop => []

/-- The text of a named part, the last one of its name, and nothing if there is none. -/
def valueOf (name : Terminal) (values : List (Terminal × Text)) : Text :=
  ((values.reverse.find? fun value => value.1 = name).map Prod.snd).getD []

def isSpace (char : Char) : Bool := [' ', '\t', '\n', '\x0c', '\r'].contains char

def dotPattern : Pattern := [.many isSpace, .one (· = '.'), .one isSpace, .many isSpace]

def importeePattern : Pattern := [.one fun char => char ≠ '#' && !isSpace char, .many (· ≠ '#')]

def commentPattern : Pattern := [.one (· = '#'), .many (· ≠ '\n')]

def remainderPattern : Pattern := [.one (· ≠ '\n'), .many (· ≠ '\n')]

def testedPattern : Pattern :=
  .optional (· = '"') :: (Pattern.letters "$here".toList ++
    .one (fun char => char = '/' || char = '\\') :: (Pattern.letters "$sut".toList ++
      [.optional (· = '"')]))

def itPattern : Pattern :=
  .many isSpace :: (Pattern.letters "it".toList ++ [.one isSpace, .many isSpace])

def titlePattern : Pattern := [.one (· = '"'), .many (· ≠ '"'), .one (· = '"')]

def importLine : library.Parser :=
  let dot := library.token dotPattern .dot
  let importee := library.token importeePattern .importee
  let comment := library.token commentPattern .comment
  library.choice List.head?
    [library.sequence collect [dot, importee, comment, library.stop],
      library.sequence collect [dot, importee, library.stop],
      library.sequence collect [dot, comment, library.stop],
      library.sequence collect [dot, library.stop]]

def relativePath : library.Parser :=
  let root := library.token (Pattern.letters Line.rootVariable) .root
  let remainder := library.token remainderPattern .remainder
  library.choice List.head?
    [library.sequence collect [root, remainder, library.stop], library.sequence collect [root, library.stop]]

def testedFile : library.Parser :=
  library.sequence collect [library.token testedPattern .tested, library.stop]

def testcaseLine : library.Parser :=
  library.sequence collect [library.token itPattern .it, library.token titlePattern .title]

/-- The named parts of a text that a parser matches, not always to its end. -/
def match? (parser : library.Parser) (text : Text) : Option (List (Terminal × Text)) :=
  match library.run parser text.pieces with
  | some (.fields values, _) => some values
  | _ => none

def importee (text : Text) : Importee :=
  match library.match? library.relativePath text with
  | some values =>
      .relative <| Text.trimBytes [Text.byte '/'] <| (valueOf .remainder values).map fun byte =>
        if byte = Text.byte '\\' then Text.byte '/' else byte
  | none => if (library.match? library.testedFile text).isSome then .tested else .unrecognized text

def import? (line : Line) : Option Import :=
  (library.match? library.importLine line.text).map fun values =>
    ⟨library.importee (Text.trimEnd (valueOf .importee values)), line.span⟩

def testcase? (line : Line) : Option Testcase :=
  (library.match? library.testcaseLine line.text).map fun values =>
    ⟨Text.trimBytes [Text.byte '"'] (valueOf .title values), line.span⟩

section Patterns

variable {pieces rest : List Piece} {word : List Char}

theorem foldChar_mark {mark : Char} (ascii : Text.IsAscii mark) (low : mark.toNat < 0x61)
    (folded : Text.foldChar mark = mark) (char : Char) : Text.foldChar char = mark ↔ char = mark :=
  ⟨Text.foldChar_eq ascii low, fun same => by rw [same, folded]⟩

theorem foldChar_quote (char : Char) : Text.foldChar char = '"' ↔ char = '"' :=
  foldChar_mark (by decide) (by decide) (by decide +kernel) char

theorem dropQuote_eq (pieces : List Piece) : Line.dropQuote pieces = Pattern.dropOne (· = '"') pieces := by
  cases pieces with
  | nil => rfl
  | cons piece rest =>
      by_cases quote : piece.char = '"' <;>
        simp [Line.dropQuote, Line.afterFolded?, Pattern.dropOne, foldChar_quote, quote]

theorem left_slash (rest : Pattern) (pieces : List Piece) :
    Pattern.left? (.one (fun char => char = '/' || char = '\\') :: rest) pieces =
      ((Line.afterFolded? ['/'] pieces).or (Line.afterFolded? ['\\'] pieces)).bind (Pattern.left? rest) := by
  have slash : ∀ char, Text.foldChar char = '/' ↔ char = '/' :=
    foldChar_mark (by decide) (by decide) (by decide +kernel)
  have back : ∀ char, Text.foldChar char = '\\' ↔ char = '\\' :=
    foldChar_mark (by decide) (by decide) (by decide +kernel)
  cases pieces with
  | nil => rfl
  | cons piece pieces =>
      by_cases forward : piece.char = '/'
      · simp [Line.afterFolded?, slash, forward]
      · by_cases backward : piece.char = '\\' <;>
          simp [Line.afterFolded?, slash, back, forward, backward]

theorem left_testedPattern (pieces : List Piece) : testedPattern.left? pieces =
    (Line.afterFolded? "$here".toList (Line.dropQuote pieces)).bind fun rest =>
      ((Line.afterFolded? ['/'] rest).or (Line.afterFolded? ['\\'] rest)).bind fun rest =>
        (Line.afterFolded? "$sut".toList rest).map Line.dropQuote := by
  have ends : Pattern.left? [.optional (· = '"')] = some ∘ Line.dropQuote := by
    funext pieces
    rw [Pattern.left?_optional_last, Function.comp, dropQuote_eq]
  have apart : ∀ piece rest, decide (piece.char = '"') = true → Pattern.left? (Pattern.letters "$here".toList ++
      .one (fun char => char = '/' || char = '\\') :: (Pattern.letters "$sut".toList ++
        [.optional (· = '"')])) (piece :: rest) = none := by
    intro piece rest quote
    have other : Text.foldChar piece.char ≠ '$' := by
      rw [of_decide_eq_true quote]
      decide +kernel
    rw [Pattern.left?_letters, Line.afterFolded?.eq_def]
    simp [other]
  rw [testedPattern, Pattern.left?_optional apart, Pattern.left?_letters, dropQuote_eq]
  congr
  funext rest
  rw [left_slash]
  congr
  funext rest
  rw [Pattern.left?_letters, ends, Option.map_eq_bind]

theorem left_gap {seen : List Piece} (found : Pattern.left? [.one isSpace, .many isSpace] seen = some rest) :
    ∃ gap, seen = gap ++ rest ∧ gap ≠ [] ∧ (∀ piece ∈ gap, isSpace piece.char = true) ∧
      ∀ piece ∈ rest.head?, isSpace piece.char = false := by
  cases seen with
  | nil => cases found
  | cons space more =>
      rw [Pattern.left?_one_cons, Pattern.left?_many_last] at found
      split at found
      next spaced =>
        obtain rfl := Option.some.inj found
        refine ⟨space :: more.takeWhile fun piece => isSpace piece.char, ?_, List.cons_ne_nil _ _, ?_,
          List.head?_dropWhile_fails (fun piece : Piece => isSpace piece.char) more⟩
        · rw [List.cons_append, List.takeWhile_append_dropWhile]
        · rw [List.forall_mem_cons]
          exact ⟨spaced, fun piece => List.mem_takeWhile_imp⟩
      next => cases found

theorem left_gap_append {gap : List Piece} (filled : gap ≠ [])
    (spaces : ∀ piece ∈ gap, isSpace piece.char = true) (rest : List Piece) :
    Pattern.left? [.one isSpace, .many isSpace] (gap ++ rest) =
      some (rest.dropWhile fun piece => isSpace piece.char) := by
  obtain ⟨space, more, rfl⟩ := List.exists_cons_of_ne_nil filled
  obtain ⟨spaced, others⟩ := List.forall_mem_cons.mp spaces
  rw [List.cons_append, Pattern.left?_one_cons, if_pos spaced, Pattern.left?_many_last,
    List.dropWhile_append_of_pos others]

def afterOpening? (word : List Char) (pieces : List Piece) : Option (List Piece) :=
  (Line.afterFolded? word (pieces.dropWhile fun piece => isSpace piece.char)).bind
    (Pattern.left? [.one isSpace, .many isSpace])

structure Opening (word : List Char) (pieces lead front gap rest : List Piece) : Prop where
  split : pieces = lead ++ (front ++ (gap ++ rest))
  lead : ∀ piece ∈ lead, isSpace piece.char = true
  spells : front.map (fun piece => Text.foldChar piece.char) = word
  filled : gap ≠ []
  gap : ∀ piece ∈ gap, isSpace piece.char = true

theorem exists_opening (found : afterOpening? word pieces = some rest) :
    ∃ lead front gap, Opening word pieces lead front gap rest ∧
      ∀ piece ∈ rest.head?, isSpace piece.char = false := by
  obtain ⟨seen, behind, left⟩ := Option.bind_eq_some_iff.mp found
  obtain ⟨front, split, spells⟩ := Line.exists_afterFolded behind
  obtain ⟨gap, cut, filled, spaces, stops⟩ := left_gap left
  refine ⟨pieces.takeWhile fun piece => isSpace piece.char, front, gap,
    ⟨?_, fun piece => List.mem_takeWhile_imp, spells, filled, spaces⟩, stops⟩
  rw [← cut, ← split, List.takeWhile_append_dropWhile]

def Starts (word : List Char) : Prop :=
  ∃ letter more, word = letter :: more ∧ ∀ char, isSpace char = true → Text.foldChar char ≠ letter

theorem starts_of_spaces {letter : Char} {more : List Char} (apart : letter ∉
    [' ', '\t', '\n', '\x0c', '\r'].map Text.foldChar) : Starts (letter :: more) := by
  refine ⟨letter, more, rfl, fun char space same => apart ?_⟩
  rw [← same]
  exact List.mem_map_of_mem (List.contains_iff_mem.mp space)

theorem starts_dot : Starts ['.'] := starts_of_spaces (by decide +kernel)

theorem starts_it : Starts "it".toList := starts_of_spaces (by decide +kernel)

theorem Starts.apart (starts : Starts word) (rest : Pattern) (piece : Piece) (pieces : List Piece)
    (space : isSpace piece.char = true) :
    (Line.afterFolded? word (piece :: pieces)).bind (Pattern.left? rest) = none := by
  obtain ⟨letter, more, rfl, apart⟩ := starts
  rw [Line.afterFolded?, if_neg (apart _ space), Option.bind_none]

theorem Opening.after {lead front gap : List Piece} (starts : Starts word)
    (opening : Opening word pieces lead front gap rest) :
    afterOpening? word pieces = some (rest.dropWhile fun piece => isSpace piece.char) := by
  have stops : (front ++ (gap ++ rest)).dropWhile (fun piece => isSpace piece.char) =
      front ++ (gap ++ rest) := by
    obtain ⟨letter, more, same, apart⟩ := starts
    have spells := opening.spells
    rw [same] at spells
    cases front with
    | nil => cases spells
    | cons piece front =>
        rw [List.map_cons] at spells
        apply List.dropWhile_cons_of_neg
        exact fun space => apart _ space (List.cons.inj spells).1
  rw [afterOpening?, opening.split, List.dropWhile_append_of_pos opening.lead, stops, ← opening.spells,
    Line.afterFolded_append]
  exact left_gap_append opening.filled opening.gap rest

theorem left_dotPattern (pieces : List Piece) : dotPattern.left? pieces = afterOpening? ['.'] pieces := by
  have dot : ∀ char, Text.foldChar char = '.' ↔ char = '.' :=
    foldChar_mark (by decide) (by decide) (by decide +kernel)
  have same : ∀ pieces, Pattern.left? [.one (· = '.'), .one isSpace, .many isSpace] pieces =
      (Line.afterFolded? ['.'] pieces).bind (Pattern.left? [.one isSpace, .many isSpace]) := by
    intro pieces
    cases pieces with
    | nil => rfl
    | cons piece rest =>
        by_cases dotted : piece.char = '.' <;> simp [Line.afterFolded?, dot, dotted]
  rw [dotPattern, Pattern.left?_many, same, afterOpening?]
  intro piece rest space
  rw [same]
  exact starts_dot.apart _ _ _ space

theorem left_itPattern (pieces : List Piece) : itPattern.left? pieces = afterOpening? "it".toList pieces := by
  rw [itPattern, Pattern.left?_many, Pattern.left?_letters, afterOpening?]
  intro piece rest space
  rw [Pattern.left?_letters]
  exact starts_it.apart _ _ _ space

structure Quoted (pieces : List Piece) (opening : Piece) (inner : List Piece) (closing : Piece)
    (behind : List Piece) : Prop where
  split : pieces = opening :: (inner ++ closing :: behind)
  opening : opening.char = '"'
  closing : closing.char = '"'
  inner : ∀ piece ∈ inner, piece.char ≠ '"'

theorem left_titlePattern_iff : titlePattern.left? pieces = some rest ↔
    ∃ opening inner closing, Quoted pieces opening inner closing rest := by
  have apart : ∀ piece rest, decide (piece.char ≠ '"') = true →
      Pattern.left? [.one (· = '"')] (piece :: rest) = none := by
    intro piece rest other
    rw [Pattern.left?_one_cons, if_neg (by simpa using other)]
  constructor
  · intro found
    rw [titlePattern, Pattern.left?_one] at found
    obtain ⟨seen, opens, closes⟩ := Option.bind_eq_some_iff.mp found
    clear found
    rw [Pattern.left?_many apart] at closes
    cases pieces with
    | nil => cases opens
    | cons opening more =>
        have whole := List.takeWhile_append_dropWhile (p := fun piece : Piece => decide (piece.char ≠ '"'))
          (l := seen)
        generalize seen.dropWhile (fun piece => decide (piece.char ≠ '"')) = last at closes whole
        cases last with
        | nil => cases closes
        | cons closing behind =>
            simp only [Pattern.left?_one_cons, decide_eq_true_eq, Pattern.left?_nil,
              Option.ite_none_right_eq_some, Option.some.injEq] at opens closes
            obtain ⟨opened, rfl⟩ := opens
            obtain ⟨closed, rfl⟩ := closes
            refine ⟨opening, _, closing, by rw [whole], opened, closed, fun piece member => ?_⟩
            have stays := List.mem_takeWhile_imp member
            exact of_decide_eq_true stays
  · rintro ⟨opening, inner, closing, quoted⟩
    rw [titlePattern, quoted.split, Pattern.left?_one_cons, if_pos (decide_eq_true quoted.opening),
      Pattern.left?_many apart,
      List.dropWhile_append_of_pos fun piece member => decide_eq_true (quoted.inner piece member),
      List.dropWhile_cons_of_neg (by simp [quoted.closing]), Pattern.left?_one_cons,
      if_pos (decide_eq_true quoted.closing), Pattern.left?_nil]

theorem isSpace_of_isSkipped {char : Char} (skipped : isSkipped char = true) : isSpace char = true := by
  simp only [isSkipped, isSpace, List.contains_iff_mem, List.mem_cons, List.not_mem_nil,
    or_false] at skipped ⊢
  rcases skipped with same | same | same | same <;> simp [same]

def Unskipped (pieces : List Piece) : Prop := ∀ piece ∈ pieces.head?, isSkipped piece.char = false

theorem Unskipped.dropWhile_eq (unskipped : Unskipped pieces) :
    (pieces.dropWhile fun piece => isSkipped piece.char) = pieces := by
  cases pieces with
  | nil => rfl
  | cons piece rest =>
      have stays := unskipped piece rfl
      rw [List.dropWhile_cons_of_neg (by simp [stays])]

theorem unskipped_of_unspaced (unspaced : ∀ piece ∈ pieces.head?, isSpace piece.char = false) :
    Unskipped pieces := by
  intro piece first
  cases skipped : isSkipped piece.char with
  | false => rfl
  | true => exact (isSpace_of_isSkipped skipped).symm.trans (unspaced piece first)

theorem afterOpening_skipped (word : List Char) (pieces : List Piece) :
    afterOpening? word (pieces.dropWhile fun piece => isSkipped piece.char) = afterOpening? word pieces := by
  rw [afterOpening?, List.dropWhile_dropWhile, afterOpening?]
  exact fun piece => isSpace_of_isSkipped

end Patterns

section Runs

variable {library} {pieces : List Piece} {text : Text} (lawful : library.Lawful)

include lawful

theorem run_token (unskipped : Unskipped pieces) (pattern : Pattern) (name : Terminal) :
    library.run (library.token pattern name) pieces =
      (pattern.left? pieces).map fun left => (.terminal name (taken pieces left), left) := by
  rw [lawful.token, unskipped.dropWhile_eq]

theorem run_dot (pieces : List Piece) :
    library.run (library.token dotPattern .dot) pieces = (afterOpening? ['.'] pieces).map fun left =>
      (.terminal .dot (taken (pieces.dropWhile fun piece => isSkipped piece.char) left), left) := by
  rw [lawful.token]
  simp only [left_dotPattern, afterOpening_skipped]

theorem run_it (pieces : List Piece) :
    library.run (library.token itPattern .it) pieces = (afterOpening? "it".toList pieces).map fun left =>
      (.terminal .it (taken (pieces.dropWhile fun piece => isSkipped piece.char) left), left) := by
  rw [lawful.token]
  simp only [left_itPattern, afterOpening_skipped]

theorem run_importee (unspaced : ∀ piece ∈ pieces.head?, isSpace piece.char = false) :
    library.run (library.token importeePattern .importee) pieces =
      if ∃ piece ∈ pieces.head?, piece.char ≠ '#' then
        some (.terminal .importee (Text.ofPieces (pieces.takeWhile fun piece => piece.char ≠ '#')),
          pieces.dropWhile fun piece => piece.char ≠ '#')
      else none := by
  rw [run_token lawful (unskipped_of_unspaced unspaced), importeePattern]
  cases pieces with
  | nil => simp
  | cons piece rest =>
      have plain := unspaced piece rfl
      rw [Pattern.left?_one_cons, Pattern.left?_many_last]
      by_cases hash : piece.char = '#'
      · simp [hash]
      · have passes : (piece :: rest).dropWhile (fun piece => decide (piece.char ≠ '#')) =
            rest.dropWhile fun piece => decide (piece.char ≠ '#') :=
          List.dropWhile_cons_of_pos (by simp [hash])
        rw [if_pos (by simp [hash, plain]), if_pos ⟨piece, rfl, hash⟩, Option.map_some, taken, ← passes,
          List.take_length_sub_dropWhile]

theorem run_comment (unspaced : ∀ piece ∈ pieces.head?, isSpace piece.char = false)
    (inLine : ∀ piece ∈ pieces, piece.char ≠ '\n') :
    library.run (library.token commentPattern .comment) pieces =
      if ∃ piece ∈ pieces.head?, piece.char = '#' then some (.terminal .comment (Text.ofPieces pieces), [])
      else none := by
  rw [run_token lawful (unskipped_of_unspaced unspaced), commentPattern]
  cases pieces with
  | nil => simp
  | cons piece rest =>
      have passes : rest.dropWhile (fun piece => decide (piece.char ≠ '\n')) = [] := by
        rw [List.dropWhile_eq_nil_iff]
        exact fun next member => decide_eq_true (inLine next (List.mem_cons_of_mem _ member))
      rw [Pattern.left?_one_cons, Pattern.left?_many_last, passes]
      by_cases hash : piece.char = '#' <;> simp [hash, taken]

/-- The four kinds of import lines are one: behind the dot comes what is in front of a comment. -/
theorem match_importLine {text : Text} (inLine : ∀ piece ∈ text.pieces, piece.char ≠ '\n') :
    (library.match? library.importLine text).map (valueOf .importee) =
      (afterOpening? ['.'] text.pieces).map fun rest =>
        Text.ofPieces (rest.takeWhile fun piece => piece.char ≠ '#') := by
  have dot := run_dot lawful text.pieces
  have first : ∀ node : ParseNode, List.head? [node] = some node := fun _ => rfl
  cases found : afterOpening? ['.'] text.pieces with
  | none =>
      rw [found, Option.map_none] at dot
      simp [match?, importLine, lawful.choice _ _ _ first, lawful.sequence, runAll, dot]
  | some rest =>
      rw [found, Option.map_some] at dot
      obtain ⟨lead, mark, gap, opening, unspaced⟩ := exists_opening found
      have within : ∀ piece ∈ rest, piece.char ≠ '\n' := by
        intro piece member
        apply inLine
        simp [opening.split, member]
      have importee := run_importee lawful unspaced
      have comment := run_comment lawful unspaced within
      simp only [match?, importLine, lawful.choice _ _ _ first, List.findSome?_cons, List.findSome?_nil,
        lawful.sequence]
      by_cases body : ∃ piece ∈ rest.head?, piece.char ≠ '#'
      · rw [if_pos body] at importee
        have hashed : ∀ piece ∈ (rest.dropWhile fun piece => decide (piece.char ≠ '#')).head?,
            piece.char = '#' := by
          simpa using List.head?_dropWhile_fails (fun piece : Piece => decide (piece.char ≠ '#')) rest
        have inner : ∀ piece ∈ rest.dropWhile fun piece => decide (piece.char ≠ '#'), piece.char ≠ '\n' :=
          fun piece member => within piece ((List.dropWhile_suffix _).subset member)
        generalize rest.dropWhile (fun piece => decide (piece.char ≠ '#')) = left at importee hashed inner
        have unspaced : ∀ piece ∈ left.head?, isSpace piece.char = false := by
          intro piece first
          rw [hashed piece first]
          rfl
        have comment := run_comment lawful unspaced inner
        cases left with
        | nil => simp [runAll, dot, importee, comment, lawful.stop, collect, valueOf]
        | cons hash more =>
            have same : hash.char = '#' := hashed hash rfl
            simp [runAll, dot, importee, comment, lawful.stop, collect, valueOf, same]
      · rw [if_neg body] at importee
        cases rest with
        | nil => simp [runAll, dot, importee, comment, lawful.stop, collect, valueOf, Text.ofPieces]
        | cons hash more =>
            have same : hash.char = '#' := by simpa using body
            simp [runAll, dot, importee, comment, lawful.stop, collect, valueOf, same, Text.ofPieces]

theorem run_remainder (inLine : ∀ piece ∈ pieces, piece.char ≠ '\n') :
    library.run (library.token remainderPattern .remainder) pieces =
      let seen := pieces.dropWhile fun piece => isSkipped piece.char
      if seen = [] then none else some (.terminal .remainder (Text.ofPieces seen), []) := by
  have inner : ∀ piece ∈ pieces.dropWhile fun piece => isSkipped piece.char, piece.char ≠ '\n' :=
    fun piece member => inLine piece ((List.dropWhile_suffix _).subset member)
  rw [lawful.token, remainderPattern]
  generalize pieces.dropWhile (fun piece => isSkipped piece.char) = seen at inner
  cases seen with
  | nil => rfl
  | cons piece rest =>
      obtain ⟨visible, others⟩ := List.forall_mem_cons.mp inner
      have passes : rest.dropWhile (fun piece => decide (piece.char ≠ '\n')) = [] := by
        rw [List.dropWhile_eq_nil_iff]
        exact fun next member => decide_eq_true (others next member)
      simp only [Pattern.left?_one_cons, Pattern.left?_many_last, passes]
      simp [visible, taken]

theorem match_relativePath {text : Text} (inLine : ∀ piece ∈ text.pieces, piece.char ≠ '\n')
    (starts : Unskipped text.pieces) (trimmed : ∀ piece ∈ text.pieces.getLast?, isSkipped piece.char = false) :
    (library.match? library.relativePath text).map (valueOf .remainder) =
      (Line.afterFolded? Line.rootVariable text.pieces).map fun rest =>
        Text.ofPieces (rest.dropWhile fun piece => isSkipped piece.char) := by
  have root := run_token lawful starts (Pattern.letters Line.rootVariable) .root
  have first : ∀ node : ParseNode, List.head? [node] = some node := fun _ => rfl
  rw [Pattern.left?_word] at root
  simp only [match?, relativePath, lawful.choice _ _ _ first, List.findSome?_cons, List.findSome?_nil,
    lawful.sequence]
  cases found : Line.afterFolded? Line.rootVariable text.pieces with
  | none =>
      rw [found, Option.map_none] at root
      simp [runAll, root]
  | some rest =>
      rw [found, Option.map_some] at root
      obtain ⟨front, split, -⟩ := Line.exists_afterFolded found
      have within : ∀ piece ∈ rest, piece.char ≠ '\n' := by
        intro piece member
        apply inLine
        rw [split]
        exact List.mem_append_right _ member
      have remainder := run_remainder lawful within
      -- A remainder of blanks only would end in a blank, so if nothing is seen there is none.
      cases rest with
      | nil => simp [runAll, root, remainder, lawful.stop, collect, valueOf, Text.ofPieces]
      | cons piece more =>
          have seen : (piece :: more).dropWhile (fun piece => isSkipped piece.char) ≠ [] := by
            intro empty
            have ends : text.pieces.getLast? = some ((piece :: more).getLast (List.cons_ne_nil _ _)) := by
              rw [split, List.getLast?_append, List.getLast?_eq_some_getLast (List.cons_ne_nil _ _),
                Option.some_or]
            have last := trimmed _ ends
            rw [List.dropWhile_eq_nil_iff.mp empty _ (List.getLast_mem _)] at last
            cases last
          simp only [if_neg seen] at remainder
          simp [runAll, root, remainder, lawful.stop, collect, valueOf]

theorem match_testedFile {text : Text} (starts : Unskipped text.pieces) :
    (library.match? library.testedFile text).isSome = Line.isTested text.pieces := by
  have tested := run_token lawful starts testedPattern .tested
  have same : Line.isTested text.pieces = decide (testedPattern.left? text.pieces = some []) := by
    rw [left_testedPattern, Line.isTested]
    simp only [Option.bind_eq_bind, Option.map_bind, Function.comp_def]
  simp only [match?, testedFile, lawful.sequence, runAll, tested, same]
  cases testedPattern.left? text.pieces with
  | none => rfl
  | some left => cases left <;> simp [lawful.stop, collect]

theorem match_testcaseLine (text : Text) :
    (library.match? library.testcaseLine text).map (valueOf .title) =
      (afterOpening? "it".toList text.pieces).bind fun rest =>
        (titlePattern.left? rest).map fun left => taken rest left := by
  have it := run_it lawful text.pieces
  simp only [match?, testcaseLine, lawful.sequence, runAll, it]
  cases found : afterOpening? "it".toList text.pieces with
  | none => rfl
  | some rest =>
      obtain ⟨lead, front, gap, -, unspaced⟩ := exists_opening found
      have title := run_token lawful (unskipped_of_unspaced unspaced) titlePattern .title
      cases left : titlePattern.left? rest <;> simp [title, left, collect, valueOf]

end Runs

end ParserLibrary

end ScopeLint
