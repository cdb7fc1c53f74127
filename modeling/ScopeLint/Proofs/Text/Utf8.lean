import ScopeLint.Text.Utf8

/-!
Decoding can be cut between any two pieces: the bytes in front of the cut and those behind it
decode, each by themselves, to the pieces they stood for in the whole text.
-/

namespace ScopeLint

namespace Utf8

/-- A piece takes the byte it starts with and some of those that follow. -/
theorem lead_bytes (first : UInt8) (rest : Text) :
    (lead first rest).bytes = first :: rest.take ((lead first rest).bytes.length - 1) := by
  unfold lead
  repeat' split
  all_goals simp [bad]

/-- Only the bytes of a piece itself decide how it is read. -/
theorem lead_append {first : UInt8} {front behind : Text}
    (fits : (lead first (front ++ behind)).bytes.length ≤ front.length + 1) :
    lead first front = lead first (front ++ behind) := by
  by_cases ascii : first < 0x80
  · simp [lead, ascii]
  -- No sequence is longer than four bytes, so a longer front is never left.
  rcases front with _ | ⟨second, _ | ⟨third, _ | ⟨fourth, more⟩⟩⟩
  all_goals simp only [lead, ascii, if_false, List.cons_append, List.nil_append] at fits ⊢
  · repeat' split at fits
    all_goals simp_all [bad]
  · repeat' split at fits
    all_goals simp_all [bad]
  · repeat' split at fits
    all_goals simp_all [bad]

theorem piecesFrom_eq_drop (skip : Nat) (text : Text) :
    piecesFrom skip text = piecesFrom 0 (text.drop skip) := by
  induction skip generalizing text with
  | zero => rfl
  | succ skip induction =>
      cases text with
      | nil => rfl
      | cons first rest => exact induction rest

end Utf8

namespace Text

open Utf8

variable {text : Text} {piece : Piece} {front behind : List Piece}

theorem ofPieces_cons (piece : Piece) (pieces : List Piece) :
    ofPieces (piece :: pieces) = piece.bytes ++ ofPieces pieces := rfl

theorem pieces_cons (first : UInt8) (rest : Text) :
    ∃ left : Text, first :: rest = (lead first rest).bytes ++ left ∧
      pieces (first :: rest) = lead first rest :: left.pieces := by
  refine ⟨rest.drop ((lead first rest).bytes.length - 1), ?_, ?_⟩
  · conv => rhs; lhs; rw [lead_bytes]
    rw [List.cons_append, List.take_append_drop]
  · rw [pieces, piecesFrom, piecesFrom_eq_drop]
    rfl

theorem pieces_behind (cut : text.pieces = front ++ behind) :
    ∃ left : Text, text = ofPieces front ++ left ∧ left.pieces = behind := by
  induction front generalizing text with
  | nil => exact ⟨text, rfl, cut⟩
  | cons piece front induction =>
      cases text with
      | nil => simp [pieces, piecesFrom] at cut
      | cons first rest =>
          obtain ⟨left, split, same⟩ := pieces_cons first rest
          rw [same, List.cons_append] at cut
          obtain ⟨rfl, cutBehind⟩ := List.cons.inj cut
          obtain ⟨last, remains, read⟩ := induction cutBehind
          refine ⟨last, ?_, read⟩
          rw [split, ofPieces_cons, List.append_assoc, ← remains]

theorem ofPieces_pieces (text : Text) : ofPieces text.pieces = text := by
  obtain ⟨left, split, empty⟩ := pieces_behind (List.append_nil text.pieces).symm
  cases left with
  | nil => exact (split.trans (List.append_nil _)).symm
  | cons first rest => simp [pieces, piecesFrom] at empty

theorem pieces_front (cut : text.pieces = front ++ behind) : (ofPieces front).pieces = front := by
  induction front generalizing text with
  | nil => rfl
  | cons piece front induction =>
      cases text with
      | nil => simp [pieces, piecesFrom] at cut
      | cons first rest =>
          obtain ⟨left, split, same⟩ := pieces_cons first rest
          rw [same, List.cons_append] at cut
          obtain ⟨rfl, cutBehind⟩ := List.cons.inj cut
          obtain ⟨last, remains, -⟩ := pieces_behind cutBehind
          have tail := lead_bytes first rest
          generalize rest.take ((lead first rest).bytes.length - 1) = inner at tail
          have whole : rest = inner ++ ofPieces front ++ last := by
            rw [tail, remains, List.cons_append, ← List.append_assoc] at split
            exact (List.cons.inj split).2
          -- The first piece does not change when what comes after `front` is cut off.
          have reads : lead first (inner ++ ofPieces front) = lead first rest := by
            rw [whole]
            apply lead_append
            rw [← whole, tail]
            simp
          obtain ⟨other, otherSplit, otherSame⟩ := pieces_cons first (inner ++ ofPieces front)
          rw [reads, tail, List.cons_append] at otherSplit
          obtain rfl := List.append_cancel_left (List.cons.inj otherSplit).2
          rw [ofPieces_cons, tail, List.cons_append, otherSame, reads, induction cutBehind]

/-- A text falls in two wherever its pieces do. -/
theorem pieces_cut (cut : text.pieces = front ++ behind) :
    text = ofPieces front ++ ofPieces behind ∧ (ofPieces front).pieces = front ∧
      (ofPieces behind).pieces = behind := by
  obtain ⟨left, split, rfl⟩ := pieces_behind cut
  rw [ofPieces_pieces left]
  exact ⟨split, pieces_front cut, rfl⟩

end Text

end ScopeLint
