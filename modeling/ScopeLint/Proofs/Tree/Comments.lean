import ScopeLint.Proofs.Source.Pieces
import ScopeLint.Proofs.Text.Classes
import ScopeLint.Proofs.Text.Split
import ScopeLint.Proofs.Tree.Bounds

/-!
Where comments are. A hash outside of strings is part of a comment in a gap between two lexemes of a
stream, and one that is not lies in a string, in front of, between or behind what the string interpolates.
-/

namespace ScopeLint

namespace Text

def shown (pieces : List Piece) : List Char := (pieces.map Piece.char).filter fun char => char ≠ '\r'

theorem shown_append (front behind : List Piece) : shown (front ++ behind) = shown front ++ shown behind := by
  rw [shown, List.map_append, List.filter_append]
  rfl

theorem shown_cons {piece : Piece} (visible : piece.char ≠ '\r') (rest : List Piece) :
    shown (piece :: rest) = piece.char :: shown rest := by
  rw [shown, List.map_cons, List.filter_cons_of_pos (by simpa using visible)]
  rfl

abbrev single (mark : Char) : Piece := ⟨mark, [byte mark]⟩

theorem shown_single {mark : Char} (visible : mark ≠ '\r') (rest : List Piece) :
    shown (single mark :: rest) = mark :: shown rest := shown_cons visible rest

theorem eq_single {text : Text} {piece : Piece} (member : piece ∈ text.pieces) (ascii : IsAscii piece.char) :
    piece = single piece.char :=
  congrArg (Piece.mk piece.char) (bytes_of_ascii member ascii)

theorem exists_shown_cut {pieces : List Piece} {first second : List Char} {mark : Char}
    (shows : shown pieces = first ++ mark :: second) :
    ∃ front piece behind, pieces = front ++ piece :: behind ∧ piece.char = mark ∧ shown front = first ∧
      shown behind = second := by
  induction pieces generalizing first with
  | nil => simp [shown] at shows
  | cons piece rest induction =>
      by_cases returns : piece.char = '\r'
      · rw [shown, List.map_cons, List.filter_cons_of_neg (by simpa using returns)] at shows
        obtain ⟨front, mark, behind, split, same, before, after⟩ := induction shows
        refine ⟨piece :: front, mark, behind, by rw [split, List.cons_append], same, ?_, after⟩
        rw [shown, List.map_cons, List.filter_cons_of_neg (by simpa using returns)]
        exact before
      · rw [shown_cons returns] at shows
        cases first with
        | nil =>
            obtain ⟨same, after⟩ := List.cons.inj shows
            exact ⟨[], piece, rest, rfl, same, rfl, after⟩
        | cons char first =>
            obtain ⟨same, later⟩ := List.cons.inj shows
            obtain ⟨front, mark, behind, split, named, before, after⟩ := induction later
            refine ⟨piece :: front, mark, behind, by rw [split, List.cons_append], named, ?_, after⟩
            rw [shown_cons returns, same, before]

end Text

namespace Tree

theorem Gap.of_head {chars behind other : List Char} (gap : Gap chars behind)
    (same : other.head? = behind.head?) : Gap chars other := by
  induction gap with
  | nil => exact .nil
  | blank isBlank inLine rest induction => exact .blank isBlank inLine (induction same)
  | @line comment chars behind inLine ends rest induction =>
      refine .line inLine ?_ (induction same)
      rw [List.head?_append, same, ← List.head?_append]
      exact ends
  | block unclosed rest induction => exact .block unclosed (induction same)

inductive CommentChars : (comment behind : List Char) → Prop
  | line {inner behind : List Char} (inLine : '\n' ∉ inner) (ends : ∀ next ∈ behind.head?, next = '\n') :
      CommentChars ('#' :: inner) behind
  | block {inner behind : List Char} (unclosed : ¬ ['#', '>'] <:+: inner) :
      CommentChars ('<' :: ('#' :: inner ++ ['#', '>'])) behind

/-- A hash in a gap is part of a comment. -/
theorem Gap.exists_comment {chars behind front rest : List Char} (gap : Gap chars behind)
    (split : chars = front ++ '#' :: rest) :
    ∃ before comment after, chars = before ++ (comment ++ after) ∧
      Gap before (comment ++ (after ++ behind)) ∧ CommentChars comment (after ++ behind) ∧
      before.length ≤ front.length ∧ front.length < before.length + comment.length := by
  induction gap generalizing front with
  | nil => simp at split
  | @blank char chars behind isBlank inLine rest induction =>
      cases front with
      | nil =>
          obtain ⟨rfl, -⟩ := List.cons.inj split
          cases isBlank
      | cons first front =>
          obtain ⟨-, later⟩ := List.cons.inj split
          obtain ⟨before, comment, after, same, gap, forms, low, high⟩ := induction later
          refine ⟨char :: before, comment, after, by rw [same, List.cons_append], .blank isBlank inLine gap,
            forms, ?_, ?_⟩
          all_goals simp only [List.length_cons]; omega
  | @line inner chars behind inLine ends rest induction =>
      rcases List.append_eq_append_cons split with ⟨more, inside, -⟩ | ⟨middle, rfl, later⟩
      · exact ⟨[], '#' :: inner, chars, rfl, .nil, .line inLine ends, Nat.zero_le _, by simp [inside]⟩
      · obtain ⟨before, comment, after, same, gap, forms, low, high⟩ := induction later
        refine ⟨'#' :: inner ++ before, comment, after, by rw [same, List.append_assoc], .line inLine ?_ gap,
          forms, ?_, ?_⟩
        · rwa [same, List.append_assoc, List.append_assoc] at ends
        all_goals simp only [List.length_append]; omega
  | @block inner chars behind unclosed rest induction =>
      have start : '<' :: '#' :: inner ++ '#' :: '>' :: chars =
          '<' :: ('#' :: inner ++ ['#', '>']) ++ chars := by simp
      rw [start] at split ⊢
      rcases List.append_eq_append_cons split with ⟨more, inside, -⟩ | ⟨middle, rfl, later⟩
      · exact ⟨[], _, chars, rfl, .nil, .block unclosed, Nat.zero_le _, by rw [inside]; simp⟩
      · obtain ⟨before, comment, after, same, gap, forms, low, high⟩ := induction later
        refine ⟨'<' :: ('#' :: inner ++ ['#', '>']) ++ before, comment, after,
          by rw [same, List.append_assoc], ?_, forms, ?_, ?_⟩
        · simpa using Gap.block unclosed gap
        all_goals rw [List.length_append]; rw [List.length_append] at *; omega

/-- A comment in front of the rest of a text: a hash and the rest of its line, or what is from an opening
mark to the first closing mark behind it. -/
inductive IsComment : (comment behind : Text) → Prop
  | line {rest behind : Text} (inLine : Text.lineFeed ∉ rest)
      (ends : ∀ next ∈ behind.head?, next = Text.lineFeed) : IsComment (Text.byte '#' :: rest) behind
  | block {comment behind : Text} {inner : List Char}
      (shown : comment.visible = '<' :: ('#' :: inner ++ ['#', '>'])) (unclosed : ¬ ['#', '>'] <:+: inner)
      (first : comment.head? = some (Text.byte '<')) (last : comment.getLast? = some (Text.byte '>')) : IsComment comment behind

/-- The lexemes of a text, at all depths. -/
inductive Occurs (source : Text) : Tree → Prop
  | file {trees : List Tree} {tree : Tree} (accepted : read source = .ok trees) (member : tree ∈ trees) :
      Occurs source tree
  | body {delimiter : Delimiter} {span : Span} {body : List Tree} {tree : Tree}
      (holder : Occurs source (.group delimiter span body)) (member : tree ∈ body) : Occurs source tree
  | part {span : Span} {parts : List Tree} {tree : Tree} (holder : Occurs source (.string span parts))
      (member : tree ∈ parts) : Occurs source tree

def held : Tree → List Tree
  | group _ _ body => body
  | string _ parts => parts
  | _ => []

/-- When no lexeme of the outermost stream holds others, there are only those. -/
theorem Occurs.mem {source : Text} {trees : List Tree} {tree : Tree} (occurs : Occurs source tree)
    (accepted : read source = .ok trees) (flat : ∀ tree ∈ trees, tree.held = []) : tree ∈ trees := by
  induction occurs with
  | file same member =>
      obtain rfl := Except.ok.inj (same.symm.trans accepted)
      exact member
  | body holder member induction | part holder member induction =>
      have childless := flat _ induction
      rw [held] at childless
      rw [childless] at member
      cases member

/-- The streams of a text with the bytes between which they are: that of the file, and those of groups. -/
inductive Stream (source : Text) : (start stop : Int) → List Tree → Prop
  | file {trees : List Tree} (accepted : read source = .ok trees) : Stream source 0 source.length trees
  | group {delimiter : Delimiter} {span : Span} {body : List Tree} {first last : Int}
      (occurs : Occurs source (.group delimiter span body))
      (opens : source.between span.start.byte first = [delimiter.opening])
      (closes : source.between last span.stop.byte = [delimiter.closing]) : Stream source first last body

/-- The bytes between two neighbours of a stream, or between an end of the stream and the lexeme next to
it. -/
inductive GapAt (source : Text) : (first last : Int) → Prop
  | intro {start stop : Int} {before behind : List Tree} (stream : Stream source start stop (before ++ behind)) :
      GapAt source ((before.getLast?.map fun tree => tree.span.stop.byte).getD start)
        ((behind.head?.map fun tree => tree.span.start.byte).getD stop)

/-- A comment that reading a text skips: it starts in a gap, behind blanks and other comments. -/
structure Skips (source front comment behind : Text) : Prop where
  split : source = front ++ (comment ++ behind)
  form : IsComment comment behind
  skipped : ∃ first last, GapAt source first last ∧ first ≤ front.length ∧ front.length < last ∧
    Gap (source.between first front.length) (source.beyond front.length)

def InComment (source : Text) (place : Nat) : Prop :=
  ∃ front comment behind, Skips source front comment behind ∧ front.length ≤ place ∧
    place < front.length + comment.length

/-- A byte of a string outside of what the string interpolates. -/
def Quoted (source : Text) (place : Int) : Prop :=
  ∃ span parts, Occurs source (.string span parts) ∧ span.start.byte ≤ place ∧ place < span.stop.byte ∧
    ∀ part ∈ parts, ¬ (part.span.start.byte ≤ place ∧ place < part.span.stop.byte)

section Gaps

variable {source : Text} {first last : Int} {place : Nat}

open Text

theorem skips_of_pieces {before inner after comment behind : Text} {earlier later : List Piece} {mark : Char}
    {rest : List Char} (gapAt : GapAt source before.length last) (split : source = before ++ (inner ++ after))
    (stops : last = before.length + inner.length) (cut : inner.pieces = earlier ++ single mark :: later)
    (ascii : IsAscii mark) (visible : mark ≠ '\r') (gap : Gap (shown earlier) (mark :: rest))
    (text : ofPieces (single mark :: later) ++ after = comment ++ behind) (form : IsComment comment behind) :
    Skips source (before ++ ofPieces earlier) comment behind := by
  obtain ⟨bytes, same, -⟩ := pieces_cut cut
  have apart : source = before ++ (ofPieces earlier ++ (ofPieces (single mark :: later) ++ after)) := by
    rw [split, bytes, List.append_assoc]
  have front : source.slice before.length (before.length + (ofPieces earlier).length) = ofPieces earlier := by
    rw [apart, slice_middle]
  have left : source.slice (before.length + (ofPieces earlier).length) source.length =
      [] ++ byte mark :: (ofPieces later ++ after) := by
    rw [apart, slice, ← List.append_assoc, ← List.length_append, List.drop_left]
    apply List.take_of_length_le
    simp only [List.length_append]
    omega
  refine ⟨by rw [apart, text, List.append_assoc], form, _, _, gapAt, ?_, ?_, ?_⟩
  · simp only [List.length_append]
    omega
  · rw [stops, bytes, ofPieces_cons]
    simp only [List.length_append, List.length_cons, List.length_nil]
    omega
  · rw [List.length_append, beyond, between, between, Int.toNat_natCast, Int.toNat_natCast, Int.toNat_natCast,
      front, left, visible_ofPieces same]
    refine gap.of_head ?_
    rw [Text.visible, chars, pieces_mark ascii, List.map_append, List.map_cons, List.filter_append,
      List.filter_cons_of_pos (by simpa using visible)]
    rfl

theorem lineFeed_not_mem {pieces more : List Piece} {text : Text} (cut : text.pieces = pieces ++ more)
    (inLine : '\n' ∉ shown pieces) : lineFeed ∉ ofPieces pieces := by
  intro member
  apply inLine
  have present : '\n' ∈ (ofPieces pieces).chars := by
    apply List.count_pos_iff.mp
    have same : byte '\n' = lineFeed := rfl
    rw [count_chars (by decide), same]
    exact List.count_pos_iff.mpr member
  rw [chars, (pieces_cut cut).2.1] at present
  exact List.mem_filter.mpr ⟨present, by decide⟩

theorem exists_around {mark : UInt8} (nonneg : 0 ≤ first) (within : last ≤ source.length)
    (found : source[place]? = some mark) (low : first ≤ place) (high : place < last) :
    ∃ before front behind after : Text, source = before ++ ((front ++ mark :: behind) ++ after) ∧
      first = before.length ∧ last = before.length + (front ++ mark :: behind).length ∧
      place = before.length + front.length := by
  obtain ⟨inside, same⟩ := List.getElem?_eq_some_iff.mp found
  have before : source.slice first.toNat place ++ source.drop place = source.drop first.toNat :=
    slice_append_drop (by omega)
  have behind : source.slice (place + 1) last.toNat ++ source.drop last.toNat = source.drop (place + 1) :=
    slice_append_drop (by omega)
  have here : source.drop place = mark :: source.drop (place + 1) := by
    rw [← same, List.drop_eq_getElem_cons]
  have width : (source.slice first.toNat place).length = place - first.toNat := length_slice (by omega)
  have rest : (source.slice (place + 1) last.toNat).length = last.toNat - (place + 1) := length_slice (by omega)
  refine ⟨source.take first.toNat, source.slice first.toNat place, source.slice (place + 1) last.toNat,
    source.drop last.toNat, ?_, ?_, ?_, ?_⟩
  · rw [List.append_assoc, List.cons_append, behind, ← here, before, List.take_append_drop]
  · rw [List.length_take]
    omega
  · rw [List.length_take, List.length_append, List.length_cons, width, rest]
    omega
  · rw [List.length_take, width]
    omega

theorem isComment_line (rest : Text) :
    IsComment (byte '#' :: rest.takeWhile (· ≠ lineFeed)) (rest.dropWhile (· ≠ lineFeed)) := by
  refine .line ?_ ?_
  · intro member
    have stays := List.mem_takeWhile_imp member
    simp at stays
  · intro next first
    simpa using List.head?_dropWhile_fails (fun next : UInt8 => decide (next ≠ lineFeed)) rest next first

theorem shown_block {body : List Piece} {comment : List Char} (shows : shown body = '#' :: comment ++ ['#']) :
    shown (single '<' :: (body ++ [single '>'])) = '<' :: ('#' :: comment ++ ['#', '>']) := by
  rw [shown_single (by decide), shown_append, shows, shown_single (by decide)]
  simp [shown]

theorem isComment_block {body : List Piece} {comment : List Char} (behind : Text)
    (decoded : (ofPieces (single '<' :: (body ++ [single '>']))).pieces = single '<' :: (body ++ [single '>']))
    (shows : shown body = '#' :: comment ++ ['#']) (unclosed : ¬ ['#', '>'] <:+: comment) :
    IsComment (ofPieces (single '<' :: (body ++ [single '>']))) behind := by
  refine .block ((visible_ofPieces decoded).trans (shown_block shows)) unclosed rfl ?_
  rw [← List.cons_append, ofPieces_append, List.getLast?_append]
  rfl

section Pieces

variable {before inner after : Text} {front behind : List Piece} {passed comment more rest : List Char}
  (cut : inner.pieces = front ++ single '#' :: behind) (low : passed.length ≤ (shown front).length)

include cut low

theorem exists_begin {mark : Char} (ascii : IsAscii mark) (shows : shown inner.pieces = passed ++ mark :: more) :
    ∃ earlier later middle, inner.pieces = earlier ++ single mark :: later ∧ shown earlier = passed ∧
      shown later = more ∧ front = earlier ++ middle ∧ single mark :: later = middle ++ single '#' :: behind := by
  obtain ⟨earlier, piece, later, apart, rfl, first, second⟩ := exists_shown_cut shows
  have same : piece = single piece.char := eq_single (by rw [apart]; simp) ascii
  rw [← same]
  rcases List.append_eq_append_cons (apart.symm.trans cut) with ⟨more, rfl, -⟩ | ⟨middle, front, rest⟩
  · rw [← first, shown_append, shown_cons (by decide), List.length_append, List.length_cons] at low
    omega
  · exact ⟨earlier, later, middle, apart, first, second, front, rest⟩

variable (gapAt : GapAt source before.length last) (split : source = before ++ (inner ++ after))
  (stops : last = before.length + inner.length)

include gapAt split stops

theorem inComment_line (shows : shown inner.pieces = passed ++ '#' :: (comment ++ more))
    (inLine : '\n' ∉ comment) (free : Gap passed ('#' :: rest))
    (high : (shown front).length < passed.length + (comment.length + 1)) :
    InComment source (before.length + (ofPieces front).length) := by
  obtain ⟨earlier, later, middle, apart, rfl, left, rfl, meets⟩ := exists_begin cut low (by decide) shows
  let inside := fun next : UInt8 => decide (next ≠ lineFeed)
  have text : ofPieces (single '#' :: later) ++ after = byte '#' :: (ofPieces later ++ after).takeWhile inside ++
      (ofPieces later ++ after).dropWhile inside := by
    rw [List.cons_append, List.takeWhile_append_dropWhile]
    rfl
  -- What is shown from the start of the comment up to the hash is in the comment, so no line break is.
  have absent : '\n' ∉ shown middle := by
    have shows : ('#' :: comment) ++ more = shown middle ++ '#' :: shown behind := by
      rw [← shown_single (by decide), ← shown_append, ← meets, shown_single (by decide), left,
        List.cons_append]
    rcases List.append_eq_append_cons shows with ⟨others, whole, -⟩ | ⟨others, whole, -⟩
    · intro member
      have inComment : '\n' ∈ '#' :: comment := by
        rw [whole]
        exact List.mem_append_left _ member
      exact inLine (List.mem_of_ne_of_mem (by decide) inComment)
    · rw [shown_append, whole, List.length_append, List.length_append, List.length_cons] at high
      omega
  have passes : ∀ next ∈ ofPieces middle, inside next = true := by
    intro next member
    have decoded := (pieces_cut apart).2.2
    rw [meets] at decoded
    have line := lineFeed_not_mem decoded absent
    exact decide_eq_true fun same => line (same ▸ member)
  have reached : (ofPieces middle).length < (byte '#' :: (ofPieces later ++ after).takeWhile inside).length := by
    have whole : byte '#' :: (ofPieces later ++ after).takeWhile inside =
        (ofPieces (single '#' :: later) ++ after).takeWhile inside := (List.takeWhile_cons_of_pos rfl).symm
    rw [whole, meets, ofPieces_append, List.append_assoc, List.takeWhile_append_of_pos passes, List.length_append,
      ofPieces_cons, List.append_assoc, List.singleton_append, List.takeWhile_cons_of_pos rfl, List.length_cons]
    omega
  refine ⟨before ++ ofPieces earlier, _, _, skips_of_pieces gapAt split stops apart (by decide) (by decide) free text
    (isComment_line _), ?_, ?_⟩
  all_goals
    rw [List.length_append, ofPieces_append, List.length_append]
    omega

theorem inComment_block
    (shows : shown inner.pieces = passed ++ '<' :: ('#' :: comment ++ ['#', '>']) ++ more)
    (unclosed : ¬ ['#', '>'] <:+: comment) (free : Gap passed ('<' :: rest))
    (high : (shown front).length < passed.length + ('<' :: ('#' :: comment ++ ['#', '>'])).length) :
    InComment source (before.length + (ofPieces front).length) := by
  rw [List.append_assoc, List.cons_append] at shows
  obtain ⟨earlier, later, middle, apart, rfl, left, rfl, meets⟩ := exists_begin cut low (by decide) shows
  have closing : shown later = ('#' :: comment ++ ['#']) ++ '>' :: more := by simpa using left
  obtain ⟨body, angle, others, rfl, angled, seen, -⟩ := exists_shown_cut closing
  have closes : angle = single '>' := by
    rw [← angled]
    exact eq_single (by rw [apart]; simp) (by rw [angled]; decide)
  subst closes
  have ends : single '<' :: (body ++ single '>' :: others) = (single '<' :: (body ++ [single '>'])) ++ others := by
    simp
  have decoded : (ofPieces (single '<' :: (body ++ [single '>']))).pieces = single '<' :: (body ++ [single '>']) := by
    have behind := (pieces_cut apart).2.2
    rw [ends] at behind
    exact (pieces_cut behind).2.1
  have text : ofPieces (single '<' :: (body ++ single '>' :: others)) ++ after =
      ofPieces (single '<' :: (body ++ [single '>'])) ++ (ofPieces others ++ after) := by
    rw [ends, ofPieces_append, List.append_assoc]
  have reached : (ofPieces middle).length < (ofPieces (single '<' :: (body ++ [single '>']))).length := by
    rcases List.append_eq_append_cons (ends.symm.trans meets) with ⟨tail, whole, -⟩ | ⟨tail, rfl, -⟩
    · rw [whole, ofPieces_append, ofPieces_cons]
      simp
    · rw [shown_append, shown_append, shown_block seen, List.length_append, List.length_append] at high
      omega
  refine ⟨before ++ ofPieces earlier, _, _, skips_of_pieces gapAt split stops apart (by decide) (by decide) free text
    (isComment_block _ decoded seen unclosed), ?_, ?_⟩
  all_goals
    rw [List.length_append, ofPieces_append, List.length_append]
    omega

end Pieces

/-- A hash in a gap of a text is part of a comment that is skipped. -/
theorem inComment_of_gap (gapAt : GapAt source first last) (nonneg : 0 ≤ first) (within : last ≤ source.length)
    (gap : Gap (source.between first last) (source.beyond last))
    (hash : source[place]? = some (byte '#')) (low : first ≤ place) (high : place < last) :
    InComment source place := by
  obtain ⟨before, front, behind, after, split, rfl, rfl, rfl⟩ := exists_around nonneg within hash low high
  have cut := pieces_mark (show IsAscii '#' by decide) front behind
  have text : source.slice before.length (before.length + (front ++ byte '#' :: behind).length) =
      front ++ byte '#' :: behind := by
    rw [split, slice_middle]
  have whole : source.between before.length (before.length + (front ++ byte '#' :: behind).length) =
      shown (pieces (front ++ byte '#' :: behind)) := by
    rw [between, ← Int.natCast_add, Int.toNat_natCast, Int.toNat_natCast, text]
    rfl
  have width : (ofPieces front.pieces).length = front.length := by rw [ofPieces_pieces]
  have hashes : shown (pieces (front ++ byte '#' :: behind)) = shown front.pieces ++ '#' :: shown behind.pieces := by
    rw [cut, shown_append, shown_cons (by decide)]
  obtain ⟨passed, comment, more, shows, free, form, reaches, ends⟩ := gap.exists_comment (whole.trans hashes)
  rw [whole] at shows
  cases form with
  | line inLine =>
      rw [← width]
      exact inComment_line cut reaches gapAt split rfl shows inLine free ends
  | block unclosed =>
      rw [← width]
      exact inComment_block cut reaches gapAt split rfl (by rw [shows, List.append_assoc]) unclosed free ends

/-- A hash between two bytes is one of the characters there. -/
theorem hash_mem_between (nonneg : 0 ≤ first) (within : last ≤ source.length)
    (hash : source[place]? = some (byte '#')) (low : first ≤ place) (high : place < last) :
    '#' ∈ source.between first last := by
  obtain ⟨before, front, behind, after, split, rfl, rfl, rfl⟩ := exists_around nonneg within hash low high
  have cut := pieces_mark (show IsAscii '#' by decide) front behind
  rw [between, ← Int.natCast_add, Int.toNat_natCast, Int.toNat_natCast, split, slice_middle, Text.visible, chars, cut]
  exact List.mem_filter.mpr ⟨by simp, by decide⟩

end Gaps

/-- A byte of a comment that is skipped, or of a string outside of what the string interpolates. -/
def Mute (source : Text) (place : Nat) : Prop := InComment source place ∨ Quoted source place

section Hashes

variable {source : Text} {place : Nat}

theorem hash_not_run (hash : source[place]? = some (Text.byte '#')) {span : Span}
    {starts continues : Char → Bool} (within : span.Within source.length)
    (run : IsRun source span starts continues) (first : starts '#' = false) (others : continues '#' = false)
    (low : span.start.byte ≤ place) : span.stop.byte ≤ place := by
  refine Int.not_lt.mp fun high => ?_
  have member := hash_mem_between within.start within.stop hash low high
  obtain ⟨char, rest, text, begins, goes⟩ := run.text
  rw [text] at member
  rcases List.mem_cons.mp member with rfl | member
  · rw [begins] at first
    cases first
  · have continued := goes '#' member
    rw [others] at continued
    cases continued

mutual

theorem mute_of_covers (hash : source[place]? = some (Text.byte '#')) (tree : Tree)
    (occurs : Occurs source tree) (within : tree.span.Within source.length)
    (covers : Covers source tree) (low : tree.span.start.byte ≤ place) (high : place < tree.span.stop.byte) :
    Mute source place := by
  cases tree with
  | word span spacing =>
      rw [Covers] at covers
      have behind := hash_not_run hash within covers (by decide) (by decide) low
      exact absurd high (Int.not_lt.mpr behind)
  | number span =>
      rw [Covers] at covers
      have behind := hash_not_run hash within covers (by decide) (by decide) low
      exact absurd high (Int.not_lt.mpr behind)
  | symbol char span spacing =>
      rw [Covers] at covers
      have member := hash_mem_between within.start within.stop hash low high
      rw [show (symbol char span spacing).span = span from rfl, covers.1] at member
      obtain rfl := List.mem_singleton.mp member
      rcases covers.2 with newline | lone
      · cases newline
      · exact absurd rfl lone.notComment
  | string span parts =>
      rw [Covers] at covers
      obtain ⟨first, last, opening, closing, quotes, before, behind, inside⟩ := covers
      have start := Text.lt_of_between quotes.ne_nil.1 before
      have stop := Text.lt_of_between quotes.ne_nil.2 behind
      obtain ⟨nonneg, ordered, finish⟩ : span.Within source.length := within
      by_cases held : ∃ part ∈ parts, part.span.start.byte ≤ place ∧ place < part.span.stop.byte
      · obtain ⟨part, member, lower, upper⟩ := held
        have occurring : ∀ part ∈ parts, Occurs source part := fun part member => .part occurs member
        exact mute_of_parts hash parts occurring (by omega) (by omega) inside part member lower upper
      · refine .inr ⟨span, parts, occurs, low, high, fun part member both => held ⟨part, member, both⟩⟩
  | group delimiter span body =>
      rw [Covers] at covers
      obtain ⟨first, last, before, behind, inside⟩ := covers
      have start := Text.lt_of_between (List.cons_ne_nil _ _) before
      have stop := Text.lt_of_between (List.cons_ne_nil _ _) behind
      have ordered := inside.le
      obtain ⟨nonneg, -, finish⟩ : span.Within source.length := within
      have bracket {char : Char} {left right : Int} (text : source.between left right = [char]) (other : char ≠ '#')
          (lower : 0 ≤ left) (upper : right ≤ source.length) : ¬ (left ≤ place ∧ (place : Int) < right) := by
        rintro ⟨low, high⟩
        have member := hash_mem_between lower upper hash low high
        rw [text] at member
        exact other (List.mem_singleton.mp member).symm
      have opens := bracket before (by cases delimiter <;> decide) nonneg (by omega)
      have closes := bracket behind (by cases delimiter <;> decide) (by omega) finish
      have stream : Stream source first last ([] ++ body) := .group occurs before behind
      change span.start.byte ≤ place at low
      change (place : Int) < span.stop.byte at high
      have edge : (([] : List Tree).getLast?.map fun tree => tree.span.stop.byte).getD first = first := rfl
      have occurring : ∀ tree ∈ body, Occurs source tree := fun tree member => .body occurs member
      exact mute_of_level hash body stream occurring edge (by omega) (by omega) inside (by omega) (by omega)

theorem mute_of_level (hash : source[place]? = some (Text.byte '#')) {first start stop : Int}
    {before : List Tree} (trees : List Tree)
    (stream : Stream source first stop (before ++ trees)) (occurs : ∀ tree ∈ trees, Occurs source tree)
    (edge : (before.getLast?.map fun tree => tree.span.stop.byte).getD first = start)
    (nonneg : 0 ≤ start) (within : stop ≤ source.length) (level : Level source start stop trees)
    (low : start ≤ place) (high : place < stop) : Mute source place := by
  cases trees with
  | nil =>
      rw [Level] at level
      have gapAt : GapAt source start stop := edge ▸ GapAt.intro stream
      exact .inl (inComment_of_gap gapAt nonneg within level.2 hash low high)
  | cons tree rest =>
      rw [Level] at level
      obtain ⟨front, width, gap, covers, -, later⟩ := level
      have bound := later.le
      have gapAt : GapAt source start tree.span.start.byte := edge ▸ GapAt.intro stream
      by_cases free : place < tree.span.start.byte
      · exact .inl (inComment_of_gap gapAt nonneg (by omega) gap hash low free)
      · by_cases inside : place < tree.span.stop.byte
        · have bounds : tree.span.Within source.length := ⟨by omega, by omega, by omega⟩
          exact mute_of_covers hash tree (occurs tree List.mem_cons_self) bounds covers (by omega) inside
        · have behind : Stream source first stop ((before ++ [tree]) ++ rest) := by
            rwa [List.append_assoc]
          exact mute_of_level hash rest behind (List.forall_mem_cons.mp occurs).2 (by simp) (by omega) within
            later (by omega) high

theorem mute_of_parts (hash : source[place]? = some (Text.byte '#')) {start stop : Int}
    (trees : List Tree) (occurs : ∀ tree ∈ trees, Occurs source tree)
    (nonneg : 0 ≤ start) (within : stop ≤ source.length) (parts : Parts source start stop trees) :
    ∀ part ∈ trees, part.span.start.byte ≤ place → place < part.span.stop.byte → Mute source place := by
  intro part member low high
  cases trees with
  | nil => cases member
  | cons tree rest =>
      rw [Parts] at parts
      obtain ⟨front, width, covers, later⟩ := parts
      have bound := later.le
      rcases List.mem_cons.mp member with same | member
      · rw [same] at low high
        have bounds : tree.span.Within source.length := ⟨by omega, by omega, by omega⟩
        exact mute_of_covers hash tree (occurs tree List.mem_cons_self) bounds covers low high
      · have others := (List.forall_mem_cons.mp occurs).2
        exact mute_of_parts hash rest others (by omega) within later part member low high

end

/-- Each hash of a text that can be read is part of a comment that is skipped, or of a string. -/
theorem mute_of_read (hash : source[place]? = some (Text.byte '#')) {trees : List Tree}
    (accepted : read source = .ok trees) : Mute source place := by
  have level := (laid_of_read accepted).level (List.suffix_refl _)
  rw [Text.placeOf_glyphs] at level
  obtain ⟨inside, -⟩ := List.getElem?_eq_some_iff.mp hash
  have stream : Stream source 0 source.length ([] ++ trees) := .file accepted
  have bound : (place : Int) < source.length := by omega
  exact mute_of_level hash trees stream (fun tree member => .file accepted member) rfl (Int.le_refl 0)
    (Int.le_refl _) level (Int.natCast_nonneg place) bound

end Hashes

end Tree

end ScopeLint
