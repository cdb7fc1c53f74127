import ScopeLint.Proofs.Tree.Agreement
import ScopeLint.Proofs.Tree.Scanner
import ScopeLint.Proofs.Tree.Scanning

/-!
Scanning moves on. A step that takes no character turns to work of a lower rank, so a scanner is at the same
work again only when it has taken something in between, and it finishes after a number of steps that is
proportional to the characters of its text.
-/

namespace ScopeLint

namespace Lookahead

/-- The characters that a reader has still to give. -/
def coming (ahead : Lookahead) : List Glyph :=
  ahead.held.toList ++
    Glyph.locate ahead.place (ahead.offset - ahead.place.byte).toNat ahead.left.pieces

/-- How many bytes of a text are behind the place of its reader. -/
def unread (source : Text) (ahead : Lookahead) : Nat := source.length - ahead.location.byte.toNat

/-- A reader has given characters since, so that fewer bytes are behind it. -/
structure Advanced (source : Text) (ahead later : Lookahead) : Prop where
  chars : ∃ taken, taken ≠ [] ∧ ahead.coming = taken ++ later.coming
  bytes : later.unread source < ahead.unread source

variable {source : Text} {ahead later : Lookahead} {taken left : List Glyph}

theorem Tracks.coming_eq (tracks : Tracks source ahead left) : ahead.coming = left := by
  obtain ⟨-, behind, split, -, passed, start, located⟩ := tracks
  have gap : (ahead.offset - ahead.place.byte).toNat = passed := by omega
  rw [coming, gap, located, split]

theorem Tracks.advanced (tracks : Tracks source ahead (taken ++ left)) (nonempty : taken ≠ [])
    (tracksLater : Tracks source later left) : Advanced source ahead later := by
  have place : ahead.location = source.placeOf (taken ++ left) := Answer.place.inj (tracks.answer .location).1
  have placeLater : later.location = source.placeOf left := Answer.place.inj (tracksLater.answer .location).1
  constructor
  · exact ⟨taken, nonempty, by rw [tracks.coming_eq, tracksLater.coming_eq]⟩
  · have less := Text.placeOf_lt tracks.1 nonempty
    have inside := Text.placeOf_le_length tracksLater.1
    obtain ⟨first, -, -, -, start, -⟩ := Text.exists_cut tracks.1
    rw [unread, unread, place, placeLater]
    omega

end Lookahead

namespace Tree

inductive Point where
  | stream
  | lexeme
  | group
  | symbol
  | word
  | letters
  | digits
  | line
  | block
  | comment
  | sign
  | quote
  | string
  | made
  | ended
  deriving DecidableEq, Repr

def Job.point : Job → Point
  | .stream => .stream
  | .lexeme => .lexeme
  | .group _ => .group
  | .symbol => .symbol
  | .word _ => .word
  | .letters .. => .letters
  | .digits _ => .digits
  | .line => .line
  | .block => .block
  | .comment _ => .comment
  | .sign => .sign
  | .quote _ => .quote
  | .string _ => .string
  | .made .. => .made
  | .ended => .ended

def comes (test : Char → Bool) (left : List Glyph) : Bool := (left.head?.map Glyph.char).any test

/-- A bound of the turns that may follow on one another from some work on until a character is taken. -/
def Point.rank (left : List Glyph) : Point → Nat
  -- A loop at its end makes a lexeme, which leads to the stream and to the search for the next one.
  | .letters => if comes continuesWord left then 0 else 6
  | .digits => if comes Text.isDigit left then 0 else 6
  | .made => 5
  | .line => if comes (· ≠ '\n') left then 0 else 4
  | .stream => 4
  | .lexeme => 3
  | .ended => 1
  | _ => 0

theorem Point.rank_lt (point : Point) (left : List Glyph) : point.rank left < 7 := by
  cases point with
  | letters | digits | line =>
      rw [rank]
      split <;> decide
  | _ => simp [rank]

/-- Work that a scanner comes to later only by taking a character: from any work on the same work again, and
from the search for a lexeme on a lexeme that has been made. -/
def Point.Owes (point later : Point) : Prop :=
  later = point ∨ (point = .stream ∨ point = .lexeme) ∧ later = .made

theorem Point.Owes.rank_le {point later : Point} (owes : point.Owes later) (left : List Glyph) :
    point.rank left ≤ later.rank left := by
  rcases owes with rfl | ⟨rfl | rfl, rfl⟩
  · exact Nat.le_refl _
  · simp [rank]
  · simp [rank]

/-- What a job relies on. A group is opened by an opening bracket, the end of a stream is in front of a
closing one or at the end of the text, and what is taken unseen is there. -/
def Job.Ready : Job → List Glyph → Prop
  | .group _, left =>
      ∃ glyph rest delimiter, left = glyph :: rest ∧ Lead.ofChar glyph.char = .opening delimiter
  | .symbol, left | .word _, left | .block, left | .sign, left | .quote _, left => left ≠ []
  | .ended, left => Machine.AtClosing left
  | _, _ => True

/-- Where the reader is while a job is at hand: in front of an opening bracket where a group is begun, in
front of some character where one is taken unseen, and in front of a closing bracket or at the end of the
text where a stream has ended. -/
def Job.InPlace (ahead : Lookahead) : Job → Prop
  | .group _ => ∃ delimiter : Delimiter, ahead.peek.1 = some delimiter.opening
  | .symbol | .word _ | .block | .sign | .quote _ => ahead.peek.1 ≠ none
  | .ended => ∀ char ∈ ahead.peek.1, ∃ delimiter : Delimiter, char = delimiter.closing
  | _ => True

theorem Job.Ready.inPlace {source : Text} {ahead : Lookahead} {job : Job} {left : List Glyph}
    (ready : job.Ready left) (tracks : ahead.Tracks source left) : job.InPlace ahead := by
  have peeked : ahead.peek.1 = left.head?.map Glyph.char :=
    Lookahead.Answer.char.inj (tracks.answer .peek).1
  cases job with
  | group string =>
      obtain ⟨glyph, rest, delimiter, rfl, lead⟩ := ready
      have fits := Lead.fits_ofChar glyph.char
      rw [lead] at fits
      exact ⟨delimiter, peeked.trans (congrArg some fits)⟩
  | ended =>
      intro char next
      rw [peeked] at next
      obtain ⟨glyph, head, rfl⟩ := Option.map_eq_some_iff.mp next
      exact ready glyph head
  | symbol | word string | block | sign | quote sign =>
      obtain ⟨glyph, rest, rfl⟩ := List.exists_cons_of_ne_nil ready
      rw [InPlace, peeked]
      exact Option.some_ne_none glyph.char
  | _ => trivial

def Activity.potential (activity : Activity) (left : List Glyph) : Nat :=
  7 * left.length + activity.job.point.rank left

namespace Scanner

def potential (scanner : Scanner Cursor) : Nat :=
  match scanner.phase with
  | .reading activity => activity.potential scanner.reader.rest
  | _ => 0

variable {source : Text} {glyph : Glyph} {rest left : List Glyph} {activity next : Activity}
  {done : List Tree} {groups : List OpenGroup}

/-- What a step comes to: the scanner has finished, or it is ready for work of a lower potential, with no
characters to come that did not come before. -/
inductive Steps (source : Text) (left : List Glyph) (activity : Activity) : Scanner Cursor → Prop
  | finishes (outcome : Except SyntaxError (List Tree)) (cursor : Cursor) :
      Steps source left activity ⟨.finished outcome, cursor⟩
  | turns (rest : List Glyph) (next : Activity) (behind : rest <:+ left) (ready : next.job.Ready rest)
      (lower : next.potential rest < activity.potential left) :
      Steps source left activity (upon source.stop rest next)

theorem Steps.takes (ready : next.job.Ready left) (behind : left <:+ rest) :
    Steps source (glyph :: rest) activity (upon source.stop left next) := by
  refine .turns left next (behind.trans (List.suffix_cons _ _)) ready ?_
  have rank := next.job.point.rank_lt left
  have shorter := behind.length_le
  rw [Activity.potential, Activity.potential, List.length_cons]
  omega

theorem Steps.stays (ready : next.job.Ready left)
    (lower : next.job.point.rank left < activity.job.point.rank left) :
    Steps source left activity (upon source.stop left next) :=
  .turns left next (List.suffix_refl _) ready (Nat.add_lt_add_left lower _)

attribute [local simp] bind_cursor peekSecond_cursor pure_cursor Job.point Point.rank comes

theorem exists_ofChar (source : Text) (glyph : Glyph) (rest : List Glyph) :
    ∃ job left, Job.ofChar glyph.char (⟨glyph :: rest, source.stop⟩ : Cursor) =
        (job, ⟨left, source.stop⟩) ∧
      job.Ready left ∧ (left = rest ∨ left = glyph :: rest ∧ job.point.rank left < 3) := by
  have fits := Lead.fits_ofChar glyph.char
  unfold Job.ofChar
  cases lead : Lead.ofChar glyph.char with
  | opening delimiter => exact ⟨_, _, rfl, ⟨glyph, rest, delimiter, rfl, lead⟩, .inr ⟨rfl, by simp⟩⟩
  | closing delimiter =>
      rw [lead] at fits
      refine ⟨_, _, rfl, ?_, .inr ⟨rfl, by simp⟩⟩
      intro first head
      obtain rfl := Option.some.inj head
      exact ⟨delimiter, fits⟩
  | lineEnd => exact ⟨_, _, rfl, List.cons_ne_nil _ _, .inr ⟨rfl, by simp⟩⟩
  | comment =>
      rw [lead] at fits
      refine ⟨_, _, rfl, trivial, .inr ⟨rfl, ?_⟩⟩
      simp [show glyph.char = '#' from fits]
  | atSign => exact ⟨_, _, rfl, List.cons_ne_nil _ _, .inr ⟨rfl, by simp⟩⟩
  | quote => exact ⟨_, _, rfl, List.cons_ne_nil _ _, .inr ⟨rfl, by simp⟩⟩
  | word => exact ⟨_, _, rfl, List.cons_ne_nil _ _, .inr ⟨rfl, by simp⟩⟩
  | number =>
      rw [lead] at fits
      refine ⟨_, _, rfl, trivial, .inr ⟨rfl, ?_⟩⟩
      simp [show Text.isDigit glyph.char = true from fits]
  | blank => exact ⟨_, _, rfl, trivial, .inl rfl⟩
  | other =>
      by_cases block : glyph.char = '<' ∧ Cursor.peekSecond ⟨glyph :: rest, source.stop⟩ = some '#'
      · refine ⟨.block, glyph :: rest, ?_, List.cons_ne_nil _ _, .inr ⟨rfl, by simp⟩⟩
        simp [block]
      · refine ⟨.symbol, glyph :: rest, ?_, List.cons_ne_nil _ _, .inr ⟨rfl, by simp⟩⟩
        rw [not_and] at block
        by_cases angle : glyph.char = '<'
        · simp [angle, block angle]
        · simp [angle]

theorem exists_after (literal : OpenString) (within : glyph :: rest <:+ source.glyphs) :
    ∃ job left, literal.after glyph (⟨rest, source.stop⟩ : Cursor) = (job, ⟨left, source.stop⟩) ∧
      job.Ready left ∧ left <:+ rest := by
  cases goes literal.form glyph rest with
  | escape backtick double => exact ⟨_, _, after_escape backtick double, trivial, List.tail_suffix _⟩
  | close plain quoted closes =>
      exact ⟨_, _, after_close plain quoted within closes, trivial, (afterQuote_close within closes).2⟩
  | stay plain quoted stays =>
      exact ⟨_, _, after_stay plain quoted stays, trivial, suffix_afterQuote literal.form rest⟩
  | group dollar double lead round =>
      exact ⟨_, _, after_group dollar double lead round, ⟨_, _, _, rfl, lead⟩, List.suffix_refl _⟩
  | word dollar double lead =>
      exact ⟨_, _, after_word dollar double lead, List.cons_ne_nil _ _, List.suffix_refl _⟩
  | pass plain unquoted bare =>
      exact ⟨_, _, after_pass plain unquoted bare, trivial, List.suffix_refl _⟩

theorem Loop.steps {test : Char → Bool} {behind : List Glyph → Activity}
    (loop : Loop source.stop test activity behind) (left : List Glyph)
    (again : ∀ left, activity.job.Ready left) (ready : (behind left).job.Ready left)
    (lower : comes test left = false →
      (behind left).job.point.rank left < activity.job.point.rank left) :
    Steps source left activity (upon source.stop left activity).advance := by
  cases more : comes test left with
  | false =>
      rw [loop.ends left more]
      exact .stays ready (lower more)
  | true =>
      cases left with
      | nil => cases more
      | cons glyph rest =>
          rw [loop.passes glyph rest more]
          exact .takes (again rest) (List.suffix_refl _)

theorem advance_steps (activity : Activity) (within : left <:+ source.glyphs)
    (ready : activity.job.Ready left) :
    Steps source left activity (upon source.stop left activity).advance := by
  obtain ⟨job, done, groups⟩ := activity
  cases job with
  | stream => exact .stays trivial (by simp)
  | lexeme =>
      cases left with
      | nil => exact .stays (by simp [Job.Ready, Machine.AtClosing]) (by simp)
      | cons glyph rest =>
          obtain ⟨job, left, sets, prepared, moves⟩ := exists_ofChar source glyph rest
          rw [lexeme_step job left sets]
          rcases moves with rfl | ⟨rfl, lower⟩
          · exact .takes prepared (List.suffix_refl _)
          · exact .stays prepared lower
  | group string =>
      obtain ⟨glyph, rest, delimiter, rfl, lead⟩ := ready
      rw [group_step lead string]
      exact .takes trivial (List.suffix_refl _)
  | symbol | word string | quote sign =>
      obtain ⟨glyph, rest, rfl⟩ := List.exists_cons_of_ne_nil ready
      exact .takes trivial (List.suffix_refl _)
  | sign =>
      obtain ⟨glyph, rest, rfl⟩ := List.exists_cons_of_ne_nil ready
      rw [sign_step]
      split
      next quoted =>
        refine .takes ?_ (List.suffix_refl _)
        rintro rfl
        simp [Cursor.peek] at quoted
      next => exact .takes trivial (List.suffix_refl _)
  | block =>
      obtain ⟨glyph, rest, rfl⟩ := List.exists_cons_of_ne_nil ready
      exact .takes trivial (List.tail_suffix _)
  | letters string start =>
      exact (letters_loop string start).steps left (fun _ => trivial) trivial (by simp +contextual)
  | digits start => exact (digits_loop start).steps left (fun _ => trivial) trivial (by simp +contextual)
  | line => exact line_loop.steps left (fun _ => trivial) trivial (by simp +contextual)
  | comment start =>
      cases left with
      | nil => exact .finishes _ _
      | cons glyph rest =>
          rw [comment_step]
          split
          next => exact .takes trivial (List.tail_suffix _)
          next => exact .takes trivial (List.suffix_refl _)
  | string literal =>
      cases left with
      | nil => exact .finishes _ _
      | cons glyph rest =>
          obtain ⟨job, left, sets, ready, behind⟩ := exists_after literal within
          rw [string_step job left sets]
          exact .takes ready behind
  | made string tree =>
      cases string with
      | none => exact .stays trivial (by simp)
      | some literal => exact .stays trivial (by simp)
  | ended =>
      cases groups with
      | nil => cases left <;> exact .finishes _ _
      | cons opened groups =>
          cases left with
          | nil => exact .finishes _ _
          | cons last rest =>
              rw [ended_step]
              split
              next => exact .takes trivial (List.suffix_refl _)
              next => exact .finishes _ _

inductive Sound (source : Text) : Scanner Cursor → Prop
  | finished (outcome : Except SyntaxError (List Tree)) (cursor : Cursor) :
      Sound source ⟨.finished outcome, cursor⟩
  | reading (left : List Glyph) (activity : Activity) (within : left <:+ source.glyphs)
      (ready : activity.job.Ready left) : Sound source (upon source.stop left activity)

/-- A scanner that has come further by some steps. Each of them has lowered the potential. -/
structure Further (steps : Nat) (scanner later : Scanner Cursor) : Prop where
  behind : later.reader.rest <:+ scanner.reader.rest
  lower : later.potential + steps ≤ scanner.potential

variable {scanner middle later : Scanner Cursor}

theorem Further.trans {steps more : Nat} (first : Further steps scanner middle)
    (second : Further more middle later) : Further (steps + more) scanner later := by
  have lower := first.lower
  have lowerStill := second.lower
  exact ⟨second.behind.trans first.behind, by omega⟩

theorem Sound.advance (sound : Sound source scanner) : Sound source scanner.advance := by
  cases sound with
  | finished outcome cursor => exact .finished outcome cursor
  | reading left activity within ready =>
      generalize after : (upon source.stop left activity).advance = later
      have steps := advance_steps activity within ready
      rw [after] at steps
      cases steps with
      | finishes outcome cursor => exact .finished outcome cursor
      | turns rest next behind ready lower => exact .reading rest next (behind.trans within) ready

theorem Sound.further (sound : Sound source scanner) (reads : scanner.advance.phase = .reading next) :
    Further 1 scanner scanner.advance := by
  cases sound with
  | finished outcome cursor => cases reads
  | reading left activity within ready =>
      generalize after : (upon source.stop left activity).advance = later at reads
      have steps := advance_steps activity within ready
      rw [after] at steps
      cases steps with
      | finishes outcome cursor => cases reads
      | turns rest next behind ready lower => exact ⟨behind, lower⟩

theorem exists_reading_of_advance (reads : scanner.advance.phase = .reading next) :
    ∃ activity, scanner.phase = .reading activity := by
  obtain ⟨phase, cursor⟩ := scanner
  cases phase with
  | reading activity => exact ⟨activity, rfl⟩
  | finished outcome => cases reads
  | broken char => cases reads

theorem sound_scan (source : Text) (count : Nat) : Sound source (scan (Cursor.ofText source) count) := by
  induction count with
  | zero => exact .reading source.glyphs ⟨.stream, [], []⟩ (List.suffix_refl _) trivial
  | succ count induction => exact induction.advance

theorem further_scan (source : Text) (count more : Nat)
    (reads : (scan (Cursor.ofText source) (count + more)).phase = .reading next) :
    Further more (scan (Cursor.ofText source) count) (scan (Cursor.ofText source) (count + more)) := by
  induction more generalizing next with
  | zero => exact ⟨List.suffix_refl _, Nat.le_refl _⟩
  | succ more induction =>
      obtain ⟨activity, before⟩ := exists_reading_of_advance reads
      exact (induction before).trans ((sound_scan source (count + more)).further reads)

theorem finished_scan {cursor : Cursor} {count : Nat} {outcome : Except SyntaxError (List Tree)}
    (finished : (scan cursor count).phase = .finished outcome) (more : Nat) :
    (scan cursor (count + more)).phase = .finished outcome := by
  induction more with
  | zero => exact finished
  | succ more induction =>
      rw [← Nat.add_assoc, scan, advance, induction]
      exact induction

theorem finishes_within (source : Text) {count : Nat} (enough : 7 * (source.glyphs.length + 1) ≤ count) :
    (scan (Cursor.ofText source) count).phase = .finished (read source) := by
  obtain ⟨last, finishes⟩ := exists_finished source
  have sound := sound_scan source count
  generalize after : scan (Cursor.ofText source) count = scanner at sound
  cases sound with
  | finished outcome cursor =>
      have ends : (scan (Cursor.ofText source) count).phase = .finished outcome := by rw [after]
      have both := finished_scan ends last
      rw [Nat.add_comm, finished_scan finishes count] at both
      exact both.symm
  | reading left activity within ready =>
      have reads : (scan (Cursor.ofText source) (0 + count)).phase = .reading activity := by
        rw [Nat.zero_add, after]
        rfl
      have lower := (further_scan source 0 count reads).lower
      have first : (scan (Cursor.ofText source) 0).potential = 7 * source.glyphs.length + 4 := rfl
      omega

theorem exists_upon {count : Nat} (reads : (scan (Cursor.ofText source) count).phase = .reading activity) :
    ∃ left, scan (Cursor.ofText source) count = upon source.stop left activity ∧
      left <:+ source.glyphs ∧ activity.job.Ready left := by
  have sound := sound_scan source count
  generalize scan (Cursor.ofText source) count = scanner at sound reads
  cases sound with
  | finished outcome cursor => cases reads
  | reading left other within ready =>
      obtain rfl : other = activity := Phase.reading.inj reads
      exact ⟨left, rfl, within, ready⟩

/-- A scanner that owes a character has taken one. -/
theorem exists_taken {count more : Nat}
    (reads : (scan (Cursor.ofText source) count).phase = .reading activity)
    (readsLater : (scan (Cursor.ofText source) (count + more + 1)).phase = .reading next)
    (owes : activity.job.point.Owes next.job.point) :
    ∃ taken, taken ≠ [] ∧ (scan (Cursor.ofText source) count).reader.rest =
      taken ++ (scan (Cursor.ofText source) (count + more + 1)).reader.rest := by
  have further := further_scan source count (more + 1) readsLater
  obtain ⟨left, same, -⟩ := exists_upon reads
  obtain ⟨rest, sameLater, -⟩ := exists_upon readsLater
  rw [← Nat.add_assoc, same, sameLater] at further
  rw [same, sameLater]
  obtain ⟨⟨taken, split⟩, lower⟩ := further
  refine ⟨taken, ?_, split.symm⟩
  rintro rfl
  obtain rfl : rest = left := split
  -- With no character taken, the steps would have to have lowered the rank.
  have rank := owes.rank_le rest
  have potential : next.potential rest + (more + 1) ≤ activity.potential rest := lower
  rw [Activity.potential, Activity.potential] at potential
  omega

/-- Reading a text step by step always comes to an end, whatever the text is: with what the reader with fuel
returns for it, after a number of steps that its characters bound, and without ever breaking down. The
reader underneath decodes as it goes, and what it holds and the carriage returns at the end of the text do
not stop it. Whenever a lexeme has been made since one was asked for, and whenever the scanner is at the same
work for the second time, be it a loop or work that is nested in itself, the reader has given characters in
between and fewer bytes are behind it. A stream ends only in front of a closing bracket or at the end of the
text, a group is only begun in front of an opening bracket, and no character is taken that is not there. -/
theorem scan_finishes (source : Text) :
    (∀ count, 7 * (source.glyphs.length + 1) ≤ count →
      (scan (Lookahead.ofText source) count).phase = .finished (read source)) ∧
    (∀ count char, (scan (Lookahead.ofText source) count).phase ≠ .broken char) ∧
    (∀ count more activity next, (scan (Lookahead.ofText source) count).phase = .reading activity →
      (scan (Lookahead.ofText source) (count + more + 1)).phase = .reading next →
      activity.job.point.Owes next.job.point →
      Lookahead.Advanced source (scan (Lookahead.ofText source) count).reader
        (scan (Lookahead.ofText source) (count + more + 1)).reader) ∧
    ∀ count activity, (scan (Lookahead.ofText source) count).phase = .reading activity →
      activity.job.InPlace (scan (Lookahead.ofText source) count).reader := by
  refine ⟨?_, ?_, ?_, ?_⟩
  · intro count enough
    exact (inStep_scan source count).phase.trans (finishes_within source enough)
  · intro count char broken
    rw [(inStep_scan source count).phase] at broken
    have sound := sound_scan source count
    generalize scan (Cursor.ofText source) count = scanner at sound broken
    cases sound with
    | finished outcome cursor => cases broken
    | reading left activity within ready => cases broken
  · intro count more activity next reads readsLater owes
    have inStep := inStep_scan source count
    have inStepLater := inStep_scan source (count + more + 1)
    rw [inStep.phase] at reads
    rw [inStepLater.phase] at readsLater
    obtain ⟨taken, nonempty, split⟩ := exists_taken reads readsLater owes
    have tracks := inStep.tracks
    rw [split] at tracks
    exact tracks.advanced nonempty inStepLater.tracks
  · intro count activity reads
    have inStep := inStep_scan source count
    rw [inStep.phase] at reads
    obtain ⟨left, same, -, ready⟩ := exists_upon reads
    have tracks := inStep.tracks
    rw [same] at tracks
    exact ready.inPlace tracks

end Scanner

end Tree

end ScopeLint
