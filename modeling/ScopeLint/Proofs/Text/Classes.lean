import ScopeLint.Proofs.Lists
import ScopeLint.Proofs.Text.Ascii

/-!
Properties of bytes that are properties of the characters they belong to, as that of being one of some
ASCII marks. A text is passed by such a property byte by byte or character by character alike.
-/

namespace ScopeLint.Text

open Utf8

variable {bytes : UInt8 → Bool} {chars : Char → Bool}

instance (char : Char) : Decidable (IsAscii char) :=
  decidable_of_iff (char.toNat ≠ 0 ∧ char.toNat < 0x80)
    ⟨fun both => ⟨both.1, both.2⟩, fun ascii => ⟨ascii.positive, ascii.small⟩⟩

/-- All bytes of a character have a property, or none has, as the character has another. -/
def Reads (bytes : UInt8 → Bool) (chars : Char → Bool) : Prop :=
  ∀ first rest, ∀ byte ∈ (lead first rest).bytes, bytes byte = chars (lead first rest).char

theorem Reads.not (reads : Reads bytes chars) :
    Reads (fun byte => !bytes byte) (fun char => !chars char) := by
  intro first rest byte member
  exact congrArg Bool.not (reads first rest byte member)

theorem reads_marks {marks : List Char} (ascii : ∀ mark ∈ marks, IsAscii mark) :
    Reads (fun byte => (marks.map Text.byte).contains byte) (fun char => marks.contains char) := by
  intro first rest byte member
  rw [Bool.eq_iff_iff, List.contains_iff_mem, List.contains_iff_mem, List.mem_map]
  by_cases beyond : 0x80 ≤ first
  · obtain ⟨above, code, large, same⟩ := lead_beyond rest beyond
    have high := UInt8.le_iff_toNat_le.mp (above byte member)
    simp only [UInt8.reduceToNat] at high
    rw [same]
    refine iff_of_false ?_ ?_
    · rintro ⟨mark, inside, rfl⟩
      have whole := (ascii mark inside).toNat_byte
      have small := (ascii mark inside).small
      omega
    · intro inside
      have exact := (ascii _ inside).ofNat_eq rfl
      have small := (ascii _ inside).small
      omega
  · have single : lead first rest = ⟨Char.ofNat first.toNat, [first]⟩ := by
      simp [lead, UInt8.not_le.mp beyond]
    rw [single] at member ⊢
    obtain rfl := List.mem_singleton.mp member
    refine ⟨?_, fun inside => ⟨_, inside, ?_⟩⟩
    · rintro ⟨mark, inside, rfl⟩
      rwa [(ascii mark inside).toNat_byte, Char.ofNat_toNat]
    · apply UInt8.toNat_inj.mp
      rw [(ascii _ inside).toNat_byte]
      exact ((ascii _ inside).ofNat_eq rfl).symm

theorem exists_first (first : UInt8) (rest : Text) :
    ∃ piece left, pieces (first :: rest) = piece :: left ∧
      (∀ {bytes chars}, Reads bytes chars → chars piece.char = bytes first) ∧
      (first < 0x80 → left = rest.pieces) := by
  obtain ⟨left, split, same⟩ := pieces_cons first rest
  refine ⟨_, _, same, ?_, ?_⟩
  · intro bytes chars reads
    exact (reads first rest first (by rw [lead_bytes]; exact List.mem_cons_self)).symm
  · intro ascii
    have single : (lead first rest).bytes = [first] := by simp [lead, ascii]
    rw [single] at split
    rw [(List.cons.inj split).2]
    rfl

section Passing

variable (reads : Reads bytes chars) (text : Text)

include reads

theorem takeWhile_of_reads :
    text.takeWhile bytes = ofPieces (text.pieces.takeWhile fun piece => chars piece.char) := by
  generalize decoded : text.pieces = pieces
  induction pieces generalizing text with
  | nil =>
      cases text with
      | nil => rfl
      | cons first rest => simp [pieces, piecesFrom] at decoded
  | cons piece others induction =>
      cases text with
      | nil => simp [pieces, piecesFrom] at decoded
      | cons first rest =>
          obtain ⟨left, split, same⟩ := pieces_cons first rest
          rw [same] at decoded
          obtain ⟨rfl, later⟩ := List.cons.inj decoded
          have all := reads first rest
          by_cases held : chars (lead first rest).char = true
          · rw [held] at all
            rw [split, List.takeWhile_append_of_pos all, induction left later,
              List.takeWhile_cons_of_pos (p := fun piece : Piece => chars piece.char) held, ofPieces_cons]
          · have head := all first (by rw [lead_bytes]; exact List.mem_cons_self)
            rw [List.takeWhile_cons_of_neg (p := fun piece : Piece => chars piece.char) held,
              List.takeWhile_cons_of_neg (by rwa [head])]
            rfl

theorem pieces_dropWhile :
    pieces (text.dropWhile bytes) = text.pieces.dropWhile fun piece => chars piece.char := by
  obtain ⟨left, split, same⟩ := pieces_behind
    (List.takeWhile_append_dropWhile (p := fun piece : Piece => chars piece.char)
      (l := text.pieces)).symm
  rw [← same]
  apply congrArg
  have whole := List.takeWhile_append_dropWhile (p := bytes) (l := text)
  rw [takeWhile_of_reads reads] at whole
  exact List.append_cancel_left (whole.trans split)

end Passing

end ScopeLint.Text
