import ScopeLint.Proofs.Script.LineGrammar
import ScopeLint.Proofs.Script.Lines
import ScopeLint.Proofs.Source.LineEndings
import ScopeLint.Script.Basic

/-!
What import lines and test cases look like, and that exactly such lines are found. Each line of a source
gives at most one import and one test case, in the order of the lines, and what it gives is what the
library of parsers makes of it.
-/

namespace ScopeLint

namespace Text

theorem trimBytes_iff {marks : List UInt8} {text inner : Text} :
    trimBytes marks text = inner ↔ ∃ front behind, text = front ++ (inner ++ behind) ∧
      (∀ byte ∈ front, byte ∈ marks) ∧ (∀ byte ∈ behind, byte ∈ marks) ∧
      (∀ byte ∈ inner.head?, byte ∉ marks) ∧ ∀ byte ∈ inner.getLast?, byte ∉ marks := by
  have marked : ∀ byte, byte ∈ marks ↔ marks.contains byte = true := fun _ => List.contains_iff_mem.symm
  simp only [marked, Bool.not_eq_true]
  rw [trimBytes, List.reverse_dropWhile_iff]
  constructor
  · rintro ⟨behind, split, ends, last⟩
    refine ⟨text.takeWhile marks.contains, behind, ?_, fun byte => List.mem_takeWhile_imp, ends, ?_, last⟩
    · rw [← split, List.takeWhile_append_dropWhile]
    · intro byte first
      apply List.head?_dropWhile_fails marks.contains text byte
      rw [split, List.head?_append, first, Option.some_or]
      rfl
  · rintro ⟨front, behind, rfl, starts, ends, first, last⟩
    refine ⟨if inner = [] then [] else behind, ?_, ?_, last⟩
    · rw [List.dropWhile_append_of_pos starts]
      cases inner with
      | nil => exact List.dropWhile_eq_nil_iff.mpr ends
      | cons byte rest =>
          rw [if_neg (List.cons_ne_nil _ _), List.cons_append]
          exact List.dropWhile_cons_of_neg (by rw [first byte rfl]; decide)
    · intro byte member
      split at member
      · cases member
      · exact ends byte member

end Text

namespace Line

open ParserLibrary Text

section Characters

variable {text : Text}

theorem reads_isSpace : Reads isLineBlank isSpace := by
  have same : isLineBlank = fun byte => ([' ', '\t', '\n', '\x0c', '\r'].map Text.byte).contains byte := by
    funext byte
    simp only [isLineBlank, List.map_cons, List.map_nil, List.contains_cons, List.contains_nil,
      Bool.or_false, beq_eq_decide, Bool.or_assoc]
    rfl
  rw [same]
  apply reads_marks
  simp only [List.mem_cons, List.not_mem_nil, or_false, forall_eq_or_imp, forall_eq]
  decide

theorem lt_of_isLineBlank {byte : UInt8} (blank : isLineBlank byte = true) : byte < 0x80 := by
  simp only [isLineBlank, Bool.or_eq_true, decide_eq_true_eq] at blank
  rcases blank with (((rfl | rfl) | rfl) | rfl) | rfl <;> decide

theorem reads_mark {mark : Char} (ascii : IsAscii mark) :
    Reads (fun byte => byte = Text.byte mark) (fun char => char = mark) := by
  have single : ∀ char ∈ [mark], IsAscii char := by simpa using ascii
  have reads := reads_marks single
  simpa using reads

theorem pieces_dropBlanks (text : Text) :
    pieces (dropBlanks text) = text.pieces.dropWhile fun piece => isSpace piece.char :=
  pieces_dropWhile reads_isSpace text

theorem after_mark {mark : Char} (ascii : IsAscii mark) (low : mark.toNat < 0x61)
    (folded : foldChar mark = mark) (text : Text) :
    (after? text [Text.byte mark]).map Text.pieces = afterFolded? [mark] text.pieces := by
  cases text with
  | nil => rfl
  | cons first rest =>
      obtain ⟨piece, left, same, reads, single⟩ := exists_first first rest
      have marked := reads (reads_mark ascii)
      rw [decide_eq_decide] at marked
      rw [same, after?, afterFolded?]
      simp only [foldChar_mark ascii low folded, marked]
      split
      next here =>
        have small := ascii.small
        have whole := ascii.toNat_byte
        rw [single (by rw [here, UInt8.lt_iff_toNat_lt, whole]; exact small), after?, afterFolded?,
          Option.map_some]
      next => rfl

theorem afterBlanks_pieces (text : Text) :
    (afterBlanks? text).map Text.pieces = Pattern.left? [.one isSpace, .many isSpace] text.pieces := by
  cases text with
  | nil => rfl
  | cons first rest =>
      obtain ⟨piece, left, same, reads, single⟩ := exists_first first rest
      have marked := reads reads_isSpace
      rw [same, afterBlanks?, Pattern.left?_one_cons, Pattern.left?_many_last, marked]
      split
      next blank =>
        rw [single (lt_of_isLineBlank blank), Option.map_some, pieces_dropBlanks]
      next => rfl

def beforeComment (rest : List Piece) : Text :=
  trimEnd (ofPieces (rest.takeWhile fun piece => piece.char ≠ '#'))

theorem importText?_eq (text : Text) :
    importText? text = (afterOpening? ['.'] text.pieces).map beforeComment := by
  have dot : Text.ofString "." = [Text.byte '.'] := by decide
  have hash : Reads (fun byte => decide (byte ≠ Text.byte '#')) (fun char => decide (char ≠ '#')) := by
    have ascii : IsAscii '#' := by decide
    simpa using (reads_mark ascii).not
  have behindDot (rest : Text) :
      (afterBlanks? rest).map (fun rest => trimEnd (rest.takeWhile (· ≠ Text.byte '#'))) =
        (Pattern.left? [.one isSpace, .many isSpace] rest.pieces).map beforeComment := by
    rw [← afterBlanks_pieces, Option.map_map]
    congr
    funext rest
    exact congrArg trimEnd (takeWhile_of_reads hash rest)
  calc importText? text
      = (after? (dropBlanks text) [Text.byte '.']).bind fun rest =>
          (afterBlanks? rest).map fun rest => trimEnd (rest.takeWhile (· ≠ Text.byte '#')) := by
        rw [importText?, dot]
        simp only [Option.bind_eq_bind, Option.pure_def, Option.map_eq_bind, Function.comp_def]
    _ = ((after? (dropBlanks text) [Text.byte '.']).map Text.pieces).bind fun rest =>
          (Pattern.left? [.one isSpace, .many isSpace] rest).map beforeComment := by
        simp only [behindDot, Option.bind_map, Function.comp_def]
    _ = (afterOpening? ['.'] text.pieces).map beforeComment := by
        rw [after_mark (by decide) (by decide) (by decide +kernel), pieces_dropBlanks, afterOpening?,
          Option.map_bind]
        rfl

theorem bytes_quoted {opening closing : Piece} {inner behind : List Piece}
    (quoted : Quoted text.pieces opening inner closing behind) :
    opening.bytes = [Text.byte '"'] ∧ closing.bytes = [Text.byte '"'] ∧ Text.byte '"' ∉ ofPieces inner := by
  have ascii : IsAscii '"' := by decide
  refine ⟨?_, ?_, ?_⟩
  · have member : opening ∈ text.pieces := by simp [quoted.split]
    rw [bytes_of_ascii member (by rwa [quoted.opening]), quoted.opening]
  · have member : closing ∈ text.pieces := by simp [quoted.split]
    rw [bytes_of_ascii member (by rwa [quoted.closing]), quoted.closing]
  · have split : text.pieces = [opening] ++ (inner ++ closing :: behind) := quoted.split
    obtain ⟨-, -, left⟩ := pieces_cut split
    have alone : (ofPieces inner).pieces = inner := pieces_front left
    rw [← List.count_eq_zero, ← count_chars ascii, List.count_eq_zero]
    intro member
    obtain ⟨piece, inside, same⟩ := List.mem_map.mp member
    rw [alone] at inside
    exact quoted.inner piece inside same

/-- What the quotes hold at the front of a text. -/
theorem quoted_iff {name : Text} :
    ((after? text "\"").bind fun rest => (rest.cut? (Text.byte '"')).map Prod.fst) = some name ↔
      ∃ opening inner closing behind, Quoted text.pieces opening inner closing behind ∧
        name = ofPieces inner := by
  have quote : Text.ofString "\"" = [Text.byte '"'] := by decide
  rw [quote]
  constructor
  · intro found
    obtain ⟨rest, opened, cut⟩ := Option.bind_eq_some_iff.mp found
    obtain ⟨⟨front, behind⟩, closed, rfl⟩ := Option.map_eq_some_iff.mp cut
    obtain rfl := after_eq_some.mp opened
    obtain ⟨rfl, absent⟩ := exists_cut? closed
    refine ⟨⟨'"', [Text.byte '"']⟩, front.pieces, ⟨'"', [Text.byte '"']⟩, behind.pieces,
      ⟨?_, rfl, rfl, char_ne_of_not_mem (by decide) absent⟩, (ofPieces_pieces front).symm⟩
    have ascii : IsAscii '"' := by decide
    rw [List.singleton_append, ← List.nil_append (Text.byte '"' :: (_ ++ _)), pieces_mark ascii, pieces_mark ascii]
    rfl
  · rintro ⟨opening, inner, closing, behind, quoted, rfl⟩
    obtain ⟨opened, closed, absent⟩ := bytes_quoted quoted
    have split : text = [Text.byte '"'] ++ (ofPieces inner ++ Text.byte '"' :: ofPieces behind) := by
      rw [← ofPieces_pieces text, quoted.split, ofPieces_cons, opened, ofPieces_append, ofPieces_cons, closed]
      rfl
    rw [after_eq_some.mpr split, Option.bind_some, cut?_append absent]
    rfl

theorem testName?_eq (text : Text) : testName? text =
    (afterOpening? "it".toList text.pieces).bind fun rest =>
      (after? (ofPieces rest) "\"").bind fun rest => (rest.cut? (Text.byte '"')).map Prod.fst := by
  rw [testName?, afterOpening?, ← pieces_dropBlanks]
  cases found : afterFolded? "it".toList (pieces (dropBlanks text)) with
  | none => rfl
  | some seen =>
      obtain ⟨front, split, -⟩ := exists_afterFolded found
      have alone : (ofPieces seen).pieces = seen := (pieces_cut split).2.2
      have behind := afterBlanks_pieces (ofPieces seen)
      rw [alone] at behind
      rw [Option.bind_some, ← behind, Option.bind_map]
      simp only [Option.bind_eq_bind, Option.bind_some, Function.comp_def, ofPieces_pieces,
        Option.pure_def, Option.map_eq_bind]

end Characters

section Testcases

/-- A line that states a test case: the word `It` in any case, blanks, a name in quotes, and anything. -/
structure Testing (line : Line) (lead front gap : List Piece) (opening : Piece) (inner : List Piece)
    (closing : Piece) (behind : List Piece) : Prop where
  opens : Opening "it".toList line.text.pieces lead front gap (opening :: (inner ++ closing :: behind))
  opening : opening.char = '"'
  closing : closing.char = '"'
  inner : ∀ piece ∈ inner, piece.char ≠ '"'

def StatesTestcase (line : Line) (stated : Testcase) : Prop :=
  ∃ lead front gap opening inner closing behind,
    Testing line lead front gap opening inner closing behind ∧ stated = ⟨ofPieces inner, line.span⟩

variable {line : Line}

theorem Testing.after {lead front gap inner behind : List Piece} {opening closing : Piece}
    (testing : Testing line lead front gap opening inner closing behind) :
    afterOpening? "it".toList line.text.pieces = some (opening :: (inner ++ closing :: behind)) := by
  have shut : isSpace opening.char = false := by
    rw [testing.opening]
    rfl
  rw [testing.opens.after starts_it, List.dropWhile_cons_of_neg (by simp [shut])]

theorem Testing.quoted {lead front gap inner behind : List Piece} {opening closing : Piece}
    (testing : Testing line lead front gap opening inner closing behind) :
    Quoted (ofPieces (opening :: (inner ++ closing :: behind))).pieces opening inner closing behind := by
  have split := testing.opens.split
  rw [← List.append_assoc, ← List.append_assoc] at split
  exact ⟨(pieces_cut split).2.2, testing.opening, testing.closing, testing.inner⟩

theorem testcase?_iff {stated : Testcase} : line.testcase? = some stated ↔ StatesTestcase line stated := by
  rw [testcase?, testName?_eq]
  constructor
  · intro found
    obtain ⟨name, named, rfl⟩ := Option.map_eq_some_iff.mp found
    obtain ⟨rest, opens, quotes⟩ := Option.bind_eq_some_iff.mp named
    obtain ⟨lead, front, gap, opening, -⟩ := exists_opening opens
    have alone : (ofPieces rest).pieces = rest := by
      have split := opening.split
      rw [← List.append_assoc, ← List.append_assoc] at split
      exact (pieces_cut split).2.2
    obtain ⟨first, inner, closing, behind, quoted, rfl⟩ := quoted_iff.mp quotes
    rw [alone] at quoted
    obtain rfl := quoted.split
    exact ⟨lead, front, gap, first, inner, closing, behind,
      ⟨opening, quoted.opening, quoted.closing, quoted.inner⟩, rfl⟩
  · rintro ⟨lead, front, gap, opening, inner, closing, behind, testing, rfl⟩
    rw [testing.after, Option.bind_some,
      quoted_iff.mpr ⟨opening, inner, closing, behind, testing.quoted, rfl⟩]
    rfl

theorem Testing.trim_taken {lead front gap inner behind : List Piece} {opening closing : Piece}
    (testing : Testing line lead front gap opening inner closing behind) :
    trimBytes [Text.byte '"'] (taken (opening :: (inner ++ closing :: behind)) behind) = ofPieces inner := by
  obtain ⟨opened, closed, absent⟩ := bytes_quoted testing.quoted
  have front : (opening :: (inner ++ closing :: behind)).take
      ((opening :: (inner ++ closing :: behind)).length - behind.length) = opening :: (inner ++ [closing]) := by
    have split : opening :: (inner ++ closing :: behind) = (opening :: (inner ++ [closing])) ++ behind := by
      simp
    rw [split, List.length_append, Nat.add_sub_cancel, List.take_left]
  rw [taken, front, trimBytes_iff]
  refine ⟨[Text.byte '"'], [Text.byte '"'], ?_, fun _ => id, fun _ => id, ?_, ?_⟩
  · rw [ofPieces_cons, opened, ofPieces_append, ofPieces_cons, closed]
    rfl
  · intro byte first member
    obtain rfl := List.mem_singleton.mp member
    exact absent (List.mem_of_head? first)
  · intro byte last member
    obtain rfl := List.mem_singleton.mp member
    exact absent (List.mem_of_getLast? last)

theorem library_testcase {library : ParserLibrary} (lawful : library.Lawful) (line : Line) :
    library.testcase? line = line.testcase? := by
  have parsed : library.testcase? line =
      ((afterOpening? "it".toList line.text.pieces).bind fun rest =>
        (titlePattern.left? rest).map fun left => taken rest left).map fun value =>
          ⟨trimBytes [Text.byte '"'] value, line.span⟩ := by
    rw [← match_testcaseLine lawful, Option.map_map]
    rfl
  apply Option.ext
  intro stated
  rw [testcase?_iff, parsed]
  constructor
  · intro found
    obtain ⟨value, titles, rfl⟩ := Option.map_eq_some_iff.mp found
    obtain ⟨rest, opens, titled⟩ := Option.bind_eq_some_iff.mp titles
    obtain ⟨behind, left, rfl⟩ := Option.map_eq_some_iff.mp titled
    obtain ⟨lead, front, gap, opening, -⟩ := exists_opening opens
    obtain ⟨first, inner, closing, quoted⟩ := left_titlePattern_iff.mp left
    obtain rfl := quoted.split
    have testing : Testing line lead front gap first inner closing behind :=
      ⟨opening, quoted.opening, quoted.closing, quoted.inner⟩
    exact ⟨lead, front, gap, first, inner, closing, behind, testing, by rw [testing.trim_taken]⟩
  · rintro ⟨lead, front, gap, opening, inner, closing, behind, testing, rfl⟩
    have quoted : Quoted (opening :: (inner ++ closing :: behind)) opening inner closing behind :=
      ⟨rfl, testing.opening, testing.closing, testing.inner⟩
    rw [testing.after, Option.bind_some, left_titlePattern_iff.mpr ⟨opening, inner, closing, quoted⟩,
      Option.map_some, Option.map_some, testing.trim_taken]

end Testcases

section Imports

/-- A line that states an import: a dot, blanks, what is kept of the text behind them, the blanks at its
end, and a comment. -/
structure Importing (line : Line) (lead front gap kept trail comment : List Piece) : Prop where
  opens : Opening ['.'] line.text.pieces lead front gap (kept ++ (trail ++ comment))
  starts : ∀ piece ∈ (kept ++ (trail ++ comment)).head?, isSpace piece.char = false
  plain : ∀ piece ∈ kept ++ trail, piece.char ≠ '#'
  comment : ∀ piece ∈ comment.head?, piece.char = '#'
  trail : ∀ piece ∈ trail, isBlank piece.char = true
  kept : ∀ piece ∈ kept.getLast?, isBlank piece.char = false

variable {line : Line} {target : Text}

theorem Importing.pieces_kept {lead front gap kept trail comment : List Piece}
    (importing : Importing line lead front gap kept trail comment) :
    (ofPieces kept).pieces = kept ∧ (ofPieces (kept ++ trail)).pieces = kept ++ trail := by
  have split := importing.opens.split
  rw [← List.append_assoc, ← List.append_assoc] at split
  have left := (pieces_cut split).2.2
  refine ⟨pieces_front left, ?_⟩
  rw [← List.append_assoc] at left
  exact pieces_front left

theorem importText?_iff : importText? line.text = some target ↔ ∃ lead front gap kept trail comment,
    Importing line lead front gap kept trail comment ∧ target = ofPieces kept := by
  rw [importText?_eq]
  constructor
  · intro found
    obtain ⟨rest, opens, rfl⟩ := Option.map_eq_some_iff.mp found
    obtain ⟨lead, front, gap, opening, unspaced⟩ := exists_opening opens
    have plain : ∀ piece ∈ rest.takeWhile fun piece => decide (piece.char ≠ '#'), piece.char ≠ '#' := by
      intro piece member
      have stays := List.mem_takeWhile_imp member
      exact of_decide_eq_true stays
    have hashed : ∀ piece ∈ (rest.dropWhile fun piece => decide (piece.char ≠ '#')).head?, piece.char = '#' := by
      simpa using List.head?_dropWhile_fails (fun piece : Piece => decide (piece.char ≠ '#')) rest
    have whole := List.takeWhile_append_dropWhile (p := fun piece : Piece => decide (piece.char ≠ '#')) (l := rest)
    rw [beforeComment]
    generalize rest.takeWhile (fun piece => decide (piece.char ≠ '#')) = body at plain whole
    generalize rest.dropWhile (fun piece => decide (piece.char ≠ '#')) = comment at hashed whole
    obtain ⟨trail, split, blank, stops⟩ := List.reverse_dropWhile_iff.mp
      (rfl : (body.reverse.dropWhile fun piece => isBlank piece.char).reverse = _)
    obtain rfl := whole
    rw [split, List.append_assoc] at opening unspaced
    have importing : Importing line lead front gap _ trail comment :=
      ⟨opening, unspaced, fun piece member => plain piece (by rwa [split]), hashed, blank, stops⟩
    refine ⟨lead, front, gap, _, trail, comment, importing, ?_⟩
    rw [trimEnd]
    conv => lhs; rw [split, importing.pieces_kept.2, ← split]
  · rintro ⟨lead, front, gap, kept, trail, comment, importing, rfl⟩
    have rest : (kept ++ (trail ++ comment)).dropWhile (fun piece => isSpace piece.char) =
        kept ++ (trail ++ comment) := by
      have starts := importing.starts
      cases all : kept ++ (trail ++ comment) with
      | nil => rfl
      | cons piece more =>
          rw [all] at starts
          exact List.dropWhile_cons_of_neg (by simp [starts piece rfl])
    have body : (kept ++ (trail ++ comment)).takeWhile (fun piece => decide (piece.char ≠ '#')) =
        kept ++ trail := by
      have stops : comment.takeWhile (fun piece => decide (piece.char ≠ '#')) = [] := by
        cases all : comment with
        | nil => rfl
        | cons piece more => exact List.takeWhile_cons_of_neg (by simp [importing.comment piece (by rw [all]; rfl)])
      rw [← List.append_assoc, List.takeWhile_append_of_pos fun piece member =>
        decide_eq_true (importing.plain piece member), stops, List.append_nil]
    rw [importing.opens.after starts_dot, rest, Option.map_some, beforeComment, body, trimEnd,
      importing.pieces_kept.2, List.reverse_dropWhile_iff.mpr ⟨trail, rfl, importing.trail, importing.kept⟩]

/-- Two variables with a slash of either kind between them, in quotes or not, in any case. -/
def NamesTested (target : Text) : Prop :=
  ∃ opening ∈ [[], ['"']], ∃ slash ∈ ['/', '\\'], ∃ closing ∈ [[], ['"']],
    target.fold = opening ++ ("$here".toList ++ slash :: ("$sut".toList ++ closing))

def turn (byte : UInt8) : UInt8 := if byte = Text.byte '\\' then Text.byte '/' else byte

/-- What the text of an import refers to. -/
inductive Refers (target : Text) : Importee → Prop
  /-- The root variable, blanks that are skipped, and a path between slashes. -/
  | relative {root skipped rest : List Piece} {outer path last : Text}
      (split : target.pieces = root ++ (skipped ++ rest))
      (rooted : root.map (fun piece => foldChar piece.char) = rootVariable)
      (skips : ∀ piece ∈ skipped, isSkipped piece.char = true)
      (visible : ∀ piece ∈ rest.head?, isSkipped piece.char = false)
      (turned : (ofPieces rest).map turn = outer ++ (path ++ last))
      (around : ∀ byte ∈ outer ++ last, byte = Text.byte '/')
      (first : ∀ byte ∈ path.head?, byte ≠ Text.byte '/')
      (ends : ∀ byte ∈ path.getLast?, byte ≠ Text.byte '/') : Refers target (.relative path)
  | tested (unrooted : ¬ rootVariable <+: target.fold) (names : NamesTested target) : Refers target .tested
  | unrecognized (unrooted : ¬ rootVariable <+: target.fold) (other : ¬ NamesTested target) :
      Refers target (.unrecognized target)

def folded (pieces : List Piece) : List Char := pieces.map fun piece => foldChar piece.char

theorem fold_eq (target : Text) : target.fold = folded target.pieces := by
  rw [fold, chars, List.map_map]
  rfl

theorem folded_after {word : List Char} {pieces rest : List Piece}
    (found : afterFolded? word pieces = some rest) : folded pieces = word ++ folded rest := by
  obtain ⟨front, rfl, rfl⟩ := exists_afterFolded found
  exact List.map_append

theorem after_folded {word more : List Char} {pieces : List Piece} (same : folded pieces = word ++ more) :
    ∃ rest, afterFolded? word pieces = some rest ∧ folded rest = more := by
  obtain ⟨front, rest, rfl, rfl, rfl⟩ := List.map_eq_append_iff.mp same
  exact ⟨rest, afterFolded_append front rest, rfl⟩

theorem folded_dropQuote (pieces : List Piece) :
    ∃ quote ∈ [[], ['"']], folded pieces = quote ++ folded (dropQuote pieces) := by
  rw [dropQuote]
  cases found : afterFolded? ['"'] pieces with
  | none => exact ⟨[], by simp, rfl⟩
  | some rest => exact ⟨['"'], by simp, folded_after found⟩

theorem dropQuote_folded {quote more : List Char} {pieces : List Piece} (among : quote ∈ [[], ['"']])
    (same : folded pieces = quote ++ more) (plain : more.head? ≠ some '"') :
    folded (dropQuote pieces) = more := by
  rw [dropQuote]
  simp only [List.mem_cons, List.not_mem_nil, or_false] at among
  rcases among with rfl | rfl
  · cases found : afterFolded? ['"'] pieces with
    | none => exact same
    | some rest =>
        rw [folded_after found] at same
        exact absurd (by rw [← List.nil_append more, ← same]; rfl) plain
  · obtain ⟨rest, found, rfl⟩ := after_folded same
    rw [found]
    rfl

theorem slash_iff {pieces rest : List Piece} :
    (afterFolded? ['/'] pieces).or (afterFolded? ['\\'] pieces) = some rest ↔
      ∃ slash ∈ ['/', '\\'], afterFolded? [slash] pieces = some rest := by
  cases forward : afterFolded? ['/'] pieces with
  | none => simp [forward]
  | some left =>
      have backward : afterFolded? ['\\'] pieces = none := by
        cases found : afterFolded? ['\\'] pieces with
        | none => rfl
        | some other => cases (folded_after forward).symm.trans (folded_after found)
      simp [forward, backward]

theorem isTested_iff : isTested target.pieces = true ↔ NamesTested target := by
  rw [NamesTested, fold_eq, isTested]
  simp only [decide_eq_true_eq]
  constructor
  · intro found
    obtain ⟨last, chain, ends⟩ := Option.map_eq_some_iff.mp found
    obtain ⟨first, here, chain⟩ := Option.bind_eq_some_iff.mp chain
    obtain ⟨second, slashed, sut⟩ := Option.bind_eq_some_iff.mp chain
    obtain ⟨slash, among, found⟩ := slash_iff.mp slashed
    obtain ⟨opening, opens, front⟩ := folded_dropQuote target.pieces
    obtain ⟨closing, closes, behind⟩ := folded_dropQuote last
    refine ⟨opening, opens, slash, among, closing, closes, ?_⟩
    rw [front, folded_after here, folded_after found, folded_after sut, behind, ends]
    simp [folded]
  · rintro ⟨opening, opens, slash, slashes, closing, closes, same⟩
    have plain : ("$here".toList ++ slash :: ("$sut".toList ++ closing)).head? ≠ some '"' := by
      change some '$' ≠ some '"'
      decide
    have unquoted := dropQuote_folded opens same plain
    obtain ⟨first, here, front⟩ := after_folded unquoted
    have split : folded first = [slash] ++ ("$sut".toList ++ closing) := front
    obtain ⟨second, slashed, middle⟩ := after_folded split
    obtain ⟨last, sut, behind⟩ := after_folded middle
    have whole : folded last = closing ++ [] := by rw [behind, List.append_nil]
    have ends := dropQuote_folded closes whole (by decide)
    have chain : (afterFolded? "$here".toList (dropQuote target.pieces)).bind (fun rest =>
        ((afterFolded? ['/'] rest).or (afterFolded? ['\\'] rest)).bind fun rest =>
          afterFolded? "$sut".toList rest) = some last := by
      rw [here, Option.bind_some, slash_iff.mpr ⟨slash, slashes, slashed⟩, Option.bind_some, sut]
    rw [Option.bind_eq_bind, chain, Option.map_some, List.map_eq_nil_iff.mp ends]

theorem unrooted_iff : afterFolded? rootVariable target.pieces = none ↔ ¬ rootVariable <+: target.fold := by
  rw [fold_eq]
  constructor
  · rintro unrooted ⟨more, same⟩
    obtain ⟨rest, found, -⟩ := after_folded same.symm
    cases unrooted.symm.trans found
  · intro apart
    cases found : afterFolded? rootVariable target.pieces with
    | none => rfl
    | some rest => exact absurd ⟨folded rest, (folded_after found).symm⟩ apart

theorem reads_isSkipped : Reads (fun byte => byte = 0x20 || byte = 0x09 || byte = 0x0D || byte = 0x0A)
    isSkipped := by
  have same : (fun byte : UInt8 => decide (byte = 0x20) || byte = 0x09 || byte = 0x0D || byte = 0x0A) =
      fun byte => ([' ', '\t', '\r', '\n'].map Text.byte).contains byte := by
    funext byte
    simp only [List.map_cons, List.map_nil, List.contains_cons, List.contains_nil, Bool.or_false,
      beq_eq_decide, Bool.or_assoc]
    rfl
  rw [same]
  apply reads_marks
  simp only [List.mem_cons, List.not_mem_nil, or_false, forall_eq_or_imp, forall_eq]
  decide

theorem relativePath_eq {rest : List Piece} (alone : (ofPieces rest).pieces = rest) :
    relativePath rest = trimBytes [Text.byte '/']
      ((ofPieces (rest.dropWhile fun piece => isSkipped piece.char)).map turn) := by
  have skips := pieces_dropWhile reads_isSkipped (ofPieces rest)
  rw [alone] at skips
  rw [← skips, ofPieces_pieces]
  rfl

theorem refers_importee (target : Text) : Refers target (importee target) := by
  rw [importee]
  cases found : afterFolded? rootVariable target.pieces with
  | none =>
      have unrooted := unrooted_iff.mp found
      cases tested : isTested target.pieces with
      | true => exact .tested unrooted (isTested_iff.mp tested)
      | false => exact .unrecognized unrooted fun names => by simp [isTested_iff.mpr names] at tested
  | some rest =>
      obtain ⟨root, split, rooted⟩ := exists_afterFolded found
      have alone : (ofPieces rest).pieces = rest := (pieces_cut split).2.2
      obtain ⟨outer, last, turned, outside, behind, first, ends⟩ := trimBytes_iff.mp (relativePath_eq alone).symm
      have around : ∀ byte ∈ outer ++ last, byte = Text.byte '/' := by
        intro byte member
        rcases List.mem_append.mp member with member | member
        · exact List.mem_singleton.mp (outside byte member)
        · exact List.mem_singleton.mp (behind byte member)
      exact .relative (by rw [List.takeWhile_append_dropWhile, split]) rooted
        (fun piece => List.mem_takeWhile_imp)
        (List.head?_dropWhile_fails (fun piece : Piece => isSkipped piece.char) rest)
        turned around (fun byte head same => first byte head (List.mem_singleton.mpr same))
        (fun byte last same => ends byte last (List.mem_singleton.mpr same))

theorem Refers.eq {stated : Importee} (refers : Refers target stated) : importee target = stated := by
  rw [importee]
  cases refers with
  | @relative root skipped rest outer path last split rooted skips visible turned around first ends =>
      have found : afterFolded? rootVariable target.pieces = some (skipped ++ rest) := by
        rw [split, ← rooted]
        exact afterFolded_append root (skipped ++ rest)
      have seen : (skipped ++ rest).dropWhile (fun piece => isSkipped piece.char) = rest := by
        rw [List.dropWhile_append_of_pos skips]
        exact Unskipped.dropWhile_eq visible
      have trimmed : trimBytes [Text.byte '/'] ((ofPieces rest).map turn) = path := by
        rw [trimBytes_iff]
        simp only [List.mem_singleton]
        exact ⟨outer, last, turned, fun byte member => around byte (List.mem_append_left _ member),
          fun byte member => around byte (List.mem_append_right _ member), first, ends⟩
      simp only [found]
      rw [relativePath_eq (pieces_cut split).2.2, seen, trimmed]
  | tested unrooted names => simp [unrooted_iff.mpr unrooted, isTested_iff.mpr names]
  | unrecognized unrooted other =>
      have untested : isTested target.pieces = false := by
        rw [Bool.eq_false_iff]
        exact fun tested => other (isTested_iff.mp tested)
      simp [unrooted_iff.mpr unrooted, untested]

def StatesImport (line : Line) (stated : Import) : Prop :=
  ∃ lead front gap kept trail comment, Importing line lead front gap kept trail comment ∧
    Refers (ofPieces kept) stated.importee ∧ stated.span = line.span

theorem import?_iff {stated : Import} : line.import? = some stated ↔ StatesImport line stated := by
  constructor
  · intro found
    obtain ⟨target, named, rfl⟩ := Option.map_eq_some_iff.mp found
    obtain ⟨lead, front, gap, kept, trail, comment, importing, rfl⟩ := importText?_iff.mp named
    exact ⟨lead, front, gap, kept, trail, comment, importing, refers_importee _, rfl⟩
  · rintro ⟨lead, front, gap, kept, trail, comment, importing, refers, placed⟩
    rw [import?, importText?_iff.mpr ⟨lead, front, gap, kept, trail, comment, importing, rfl⟩,
      Option.map_some, refers.eq, ← placed]

/-- A line states an import if it starts with a dot and a blank, whatever follows. -/
theorem states_iff : (∃ stated, StatesImport line stated) ↔
    ∃ lead front gap rest, Opening ['.'] line.text.pieces lead front gap rest := by
  constructor
  · rintro ⟨stated, lead, front, gap, kept, trail, comment, importing, -⟩
    exact ⟨lead, front, gap, _, importing.opens⟩
  · rintro ⟨lead, front, gap, rest, opening⟩
    obtain ⟨stated, found⟩ : ∃ stated, line.import? = some stated := by
      rw [import?, importText?_eq, opening.after starts_dot]
      exact ⟨_, rfl⟩
    exact ⟨stated, import?_iff.mp found⟩

theorem library_importee {library : ParserLibrary} (lawful : library.Lawful)
    (inLine : ∀ piece ∈ target.pieces, piece.char ≠ '\n') (starts : Unskipped target.pieces)
    (trimmed : ∀ piece ∈ target.pieces.getLast?, isSkipped piece.char = false) :
    library.importee target = importee target := by
  have parsed := match_relativePath lawful inLine starts trimmed
  rw [ParserLibrary.importee, importee, match_testedFile lawful starts]
  cases found : afterFolded? rootVariable target.pieces with
  | none =>
      rw [found, Option.map_none, Option.map_eq_none_iff] at parsed
      rw [parsed]
  | some rest =>
      obtain ⟨root, split, -⟩ := exists_afterFolded found
      rw [found, Option.map_some, Option.map_eq_some_iff] at parsed
      obtain ⟨values, matched, value⟩ := parsed
      simp only [matched, value]
      rw [relativePath_eq (pieces_cut split).2.2]
      rfl

theorem isBlank_of_isSkipped {char : Char} (skipped : isSkipped char = true) : isBlank char = true := by
  simp only [isSkipped, List.contains_iff_mem, List.mem_cons, List.not_mem_nil, or_false] at skipped
  rcases skipped with rfl | rfl | rfl | rfl <;> decide

theorem library_import {library : ParserLibrary} (lawful : library.Lawful)
    (inLine : ∀ piece ∈ line.text.pieces, piece.char ≠ '\n') : library.import? line = line.import? := by
  have parsed : library.import? line = (importText? line.text).map fun target =>
      ⟨library.importee target, line.span⟩ := by
    calc library.import? line
        = ((library.match? library.importLine line.text).map (valueOf .importee)).map fun value =>
            ⟨library.importee (trimEnd value), line.span⟩ := by
          rw [Option.map_map]
          rfl
      _ = (importText? line.text).map fun target => ⟨library.importee target, line.span⟩ := by
          rw [match_importLine lawful inLine, importText?_eq, Option.map_map, Option.map_map]
          rfl
  rw [parsed, import?]
  cases found : importText? line.text with
  | none => rfl
  | some target =>
      obtain ⟨lead, front, gap, kept, trail, comment, importing, rfl⟩ := importText?_iff.mp found
      have same : library.importee (ofPieces kept) = importee (ofPieces kept) := by
        apply library_importee lawful
        all_goals rw [importing.pieces_kept.1]
        · intro piece member
          apply inLine
          simp [importing.opens.split, member]
        · apply unskipped_of_unspaced
          intro piece first
          apply importing.starts
          rw [List.head?_append, first, Option.some_or]
          rfl
        · intro piece last
          have visible := importing.kept piece last
          cases skipped : isSkipped piece.char with
          | false => rfl
          | true => exact (isBlank_of_isSkipped skipped).symm.trans visible
      rw [Option.map_some, Option.map_some, same]

end Imports

section Sources

open Text

/-- Lines against what they state: each line that states anything gives one item, in order, and no other
line gives any. -/
inductive Gathers {Item : Type} (states : Line → Item → Prop) : List Line → List Item → Prop
  | nil : Gathers states [] []
  | found {line : Line} {item : Item} {lines : List Line} {items : List Item} (stated : states line item)
      (only : ∀ other, states line other → other = item) (later : Gathers states lines items) :
      Gathers states (line :: lines) (item :: items)
  | other {line : Line} {lines : List Line} {items : List Item} (plain : ∀ item, ¬ states line item)
      (later : Gathers states lines items) : Gathers states (line :: lines) items

theorem gathers_filterMap {Item : Type} {states : Line → Item → Prop} {find : Line → Option Item}
    (exact : ∀ line item, find line = some item ↔ states line item) (lines : List Line) :
    Gathers states lines (lines.filterMap find) := by
  induction lines with
  | nil => exact .nil
  | cons line lines induction =>
      cases found : find line with
      | none =>
          rw [List.filterMap_cons_none found]
          exact .other (fun item stated => by cases found.symm.trans ((exact line item).mpr stated)) induction
      | some item =>
          rw [List.filterMap_cons_some found]
          refine .found ((exact line item).mp found) (fun other stated => ?_) induction
          exact Option.some.inj (((exact line other).mpr stated).symm.trans found)

theorem text_numbered (number offset : Nat) (texts : List Text) :
    (numbered number offset texts).map Line.text = texts.map fun text => text.dropEnding [carriageReturn] := by
  induction texts generalizing number offset with
  | nil => rfl
  | cons text rest induction => rw [numbered, List.map_cons, List.map_cons, induction]

theorem exists_texts (source : Text) : ∃ texts, source = Text.join [lineFeed] texts ∧
    (∀ text ∈ texts, lineFeed ∉ text) ∧
    (ofSource source).map Line.text = texts.map fun text => text.dropEnding [carriageReturn] := by
  refine ⟨source.splitOn lineFeed, ?_, ?_, text_numbered _ _ _⟩
  · rw [join_eq, splitOn_eq, List.intercalate_splitOn]
  · exact fun text member inside => (mem_of_splitOn lineFeed source text member _ inside).2 rfl

/-- The lines of a source are the texts between its line feeds, without a carriage return at the end. Those
that start with a dot and a blank give one import each, those of the form of a test case one test case,
and the others nothing; and that is what the grammars make of each line, whatever library of parsers they
are put together with. -/
theorem lines_stated {library : ParserLibrary} (lawful : library.Lawful) (source : Text)
    (tokens : List Token) :
    (∃ texts, source = Text.join [lineFeed] texts ∧ (∀ text ∈ texts, lineFeed ∉ text) ∧
      (ofSource source).map Line.text = texts.map fun text => text.dropEnding [carriageReturn]) ∧
    Gathers StatesImport (ofSource source) (Script.ofTokens source tokens).imports ∧
    Gathers StatesTestcase (ofSource source) (Script.ofTokens source tokens).testcases ∧
    ∀ line ∈ ofSource source,
      ((∃ stated, StatesImport line stated) ↔
        ∃ lead front gap rest, Opening ['.'] line.text.pieces lead front gap rest) ∧
      line.import? = library.import? line ∧ line.testcase? = library.testcase? line := by
  refine ⟨exists_texts source, gathers_filterMap (fun _ _ => import?_iff) _,
    gathers_filterMap (fun _ _ => testcase?_iff) _, ?_⟩
  intro line member
  obtain ⟨front, behind, stands⟩ := exists_stands source line member
  have inLine : ∀ piece ∈ line.text.pieces, piece.char ≠ '\n' :=
    char_ne_of_not_mem (by decide) stands.inLine
  exact ⟨states_iff, (library_import lawful inLine).symm, (library_testcase lawful line).symm⟩

def inTurn : List (List Piece → Option (ParseNode × List Piece)) → List Piece →
    Option (List ParseNode × List Piece)
  | [], pieces => some ([], pieces)
  | parser :: parsers, pieces => do
      let (node, left) ← parser pieces
      let (nodes, left) ← inTurn parsers left
      return (node :: nodes, left)

/-- Parsers as functions, the plainest library. -/
def plainLibrary : ParserLibrary where
  Parser := List Piece → Option (ParseNode × List Piece)
  token pattern name pieces :=
    let seen := pieces.dropWhile fun piece => isSkipped piece.char
    (pattern.left? seen).map fun left => (.terminal name (taken seen left), left)
  sequence fold parsers pieces := (inTurn parsers pieces).map fun (nodes, left) => (fold nodes, left)
  choice fold parsers pieces := (parsers.findSome? fun parser => parser pieces).bind fun (node, left) =>
    (fold [node]).map fun node => (node, left)
  stop pieces := if pieces = [] then some (.stop, []) else none
  run parser := parser

theorem plainLibrary_lawful : plainLibrary.Lawful where
  token _ _ _ := rfl
  sequence fold parsers pieces := by
    have same : ∀ pieces, plainLibrary.runAll parsers pieces = inTurn parsers pieces := by
      induction parsers with
      | nil => exact fun _ => rfl
      | cons parser parsers induction =>
          intro pieces
          rw [runAll]
          simp only [induction]
          rfl
    rw [same]
    rfl
  choice fold parsers pieces keeps := by
    have kept (outcome : Option (ParseNode × List Piece)) :
        (outcome.bind fun (node, left) => (fold [node]).map fun node => (node, left)) = outcome := by
      cases outcome with
      | none => rfl
      | some found => simp only [Option.bind_some, keeps, Option.map_some]
    exact kept _
  stop _ := rfl

/-- Imports of all three kinds, one of them of nothing, a dot that no blank follows, and a test case. -/
def statements : Text :=
  ". $psscriptRoot \\lib\\ # a\n\t. \"$HERE/$Sut\r\n . #\n.b\n It\t\"c d\" e"

theorem statements_stated : plainLibrary.Lawful ∧
    (Script.ofTokens statements []).imports.map Import.importee =
      [.relative "lib", .tested, .unrecognized []] ∧
    (Script.ofTokens statements []).testcases.map Testcase.name = ["c d"].map Text.ofString ∧
    Gathers StatesImport (ofSource statements) (Script.ofTokens statements []).imports ∧
    Gathers StatesTestcase (ofSource statements) (Script.ofTokens statements []).testcases ∧
    ∀ line ∈ ofSource statements, line.import? = plainLibrary.import? line := by
  obtain ⟨-, imports, testcases, lines⟩ := lines_stated plainLibrary_lawful statements []
  exact ⟨plainLibrary_lawful, by decide +kernel, by decide +kernel, imports, testcases,
    fun line member => (lines line member).2.1⟩

end Sources

end Line

end ScopeLint
