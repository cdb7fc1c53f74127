import ScopeLint.Proofs.Text.Utf8

/-!
ASCII inside decoded text. A byte below 0x80 is never part of a longer sequence, so every ASCII
character of a text is one byte of it and the other way around; and a text may be cut in front of
any byte that continues no sequence.
-/

theorem Char.toNat_ofNat_of_valid {code : Nat} (valid : code.isValidChar) :
    (Char.ofNat code).toNat = code := by
  rw [Char.ofNat, dif_pos valid]
  rfl

namespace ScopeLint

namespace Utf8

theorem isTail_of_isTriple {first second third : UInt8} (triple : isTriple first second third = true) :
    isTail second = true ∧ isTail third = true := by
  simp only [isTriple, isTail, Bool.and_eq_true, decide_eq_true_eq] at triple ⊢
  obtain ⟨⟨⟨-, last⟩, low⟩, high⟩ := triple
  refine ⟨⟨?_, ?_⟩, last⟩
  · split at low <;> grind
  · split at high <;> grind

theorem isTail_of_isQuadruple {first second third fourth : UInt8}
    (quadruple : isQuadruple first second third fourth = true) :
    isTail second = true ∧ isTail third = true ∧ isTail fourth = true := by
  simp only [isQuadruple, isTail, Bool.and_eq_true, decide_eq_true_eq] at quadruple ⊢
  obtain ⟨⟨⟨⟨-, inner⟩, last⟩, low⟩, high⟩ := quadruple
  refine ⟨⟨?_, ?_⟩, inner, last⟩
  · split at low <;> grind
  · split at high <;> grind

theorem isTail_of_isPair {first second : UInt8} (pair : isPair first second = true) :
    isTail second = true := by
  simp only [isPair, Bool.and_eq_true] at pair
  exact pair.2

/-- What follows a piece does not change it unless it continues a sequence. -/
theorem lead_append_of_not_tail (first : UInt8) (front : Text) {behind : Text}
    (apart : ∀ byte ∈ behind.head?, isTail byte = false) :
    lead first (front ++ behind) = lead first front := by
  cases behind with
  | nil => rw [List.append_nil]
  | cons byte more =>
      have stops : isTail byte = false := apart byte rfl
      have noPair (first : UInt8) : isPair first byte = false :=
        Bool.eq_false_iff.mpr fun pair => by simp [isTail_of_isPair pair] at stops
      have noTriple (first second third : UInt8) (among : second = byte ∨ third = byte) :
          isTriple first second third = false := by
        refine Bool.eq_false_iff.mpr fun triple => ?_
        obtain ⟨inner, last⟩ := isTail_of_isTriple triple
        rcases among with rfl | rfl
        · simp [inner] at stops
        · simp [last] at stops
      have noQuadruple (first second third fourth : UInt8)
          (among : second = byte ∨ third = byte ∨ fourth = byte) :
          isQuadruple first second third fourth = false := by
        refine Bool.eq_false_iff.mpr fun quadruple => ?_
        obtain ⟨inner, middle, last⟩ := isTail_of_isQuadruple quadruple
        rcases among with rfl | rfl | rfl
        · simp [inner] at stops
        · simp [middle] at stops
        · simp [last] at stops
      by_cases ascii : first < 0x80
      · simp [lead, ascii]
      -- No sequence is longer than four bytes, so a longer front is never left.
      rcases front with _ | ⟨second, _ | ⟨third, _ | ⟨fourth, others⟩⟩⟩
      · rcases more with _ | ⟨third, _ | ⟨fourth, more⟩⟩ <;>
          simp [lead, ascii, noPair, noTriple, noQuadruple]
      · rcases more with _ | ⟨fourth, more⟩ <;>
          simp [lead, ascii, noTriple, noQuadruple]
      · simp [lead, ascii, noQuadruple]
      · simp [lead, ascii]

theorem pair_code {first second : UInt8} (pair : isPair first second = true) :
    0x80 ≤ first.toNat % 0x20 * 0x40 + payload second := by
  simp only [isPair, Bool.and_eq_true, decide_eq_true_eq, UInt8.le_iff_toNat_le,
    UInt8.reduceToNat] at pair
  omega

theorem triple_code {first second third : UInt8} (triple : isTriple first second third = true) :
    0x80 ≤ (first.toNat % 0x10 * 0x40 + payload second) * 0x40 + payload third := by
  simp only [isTriple, Bool.and_eq_true, decide_eq_true_eq, UInt8.le_iff_toNat_le,
    UInt8.reduceToNat] at triple
  obtain ⟨⟨⟨range, -⟩, low⟩, high⟩ := triple
  by_cases short : first = 0xE0
  · have last : first ≠ 0xED := by rw [short]; decide
    simp only [if_pos short, UInt8.reduceToNat] at low
    simp only [if_neg last, UInt8.reduceToNat] at high
    simp only [payload]
    omega
  · have above : first.toNat ≠ 0xE0 := fun same => short (UInt8.toNat_inj.mp same)
    omega

theorem quadruple_code {first second third fourth : UInt8}
    (quadruple : isQuadruple first second third fourth = true) :
    0x80 ≤ ((first.toNat % 0x08 * 0x40 + payload second) * 0x40 + payload third) * 0x40 +
      payload fourth := by
  simp only [isQuadruple, Bool.and_eq_true, decide_eq_true_eq, UInt8.le_iff_toNat_le,
    UInt8.reduceToNat] at quadruple
  obtain ⟨⟨⟨⟨range, -⟩, -⟩, low⟩, high⟩ := quadruple
  by_cases short : first = 0xF0
  · have last : first ≠ 0xF4 := by rw [short]; decide
    simp only [if_pos short, UInt8.reduceToNat] at low
    simp only [if_neg last, UInt8.reduceToNat] at high
    simp only [payload]
    omega
  · have above : first.toNat ≠ 0xF0 := fun same => short (UInt8.toNat_inj.mp same)
    omega

/-- A sequence of more than one byte, or a byte that starts none, has nothing of ASCII in it. -/
theorem lead_beyond {first : UInt8} (rest : Text) (beyond : 0x80 ≤ first) :
    (∀ byte ∈ (lead first rest).bytes, 0x80 ≤ byte) ∧
      ∃ code, 0x80 ≤ code ∧ (lead first rest).char = Char.ofNat code := by
  have tail {byte : UInt8} (continues : isTail byte = true) : 0x80 ≤ byte := by
    simp only [isTail, Bool.and_eq_true, decide_eq_true_eq] at continues
    exact continues.1
  have alone : (∀ byte ∈ (bad first).bytes, 0x80 ≤ byte) ∧
      ∃ code, 0x80 ≤ code ∧ (bad first).char = Char.ofNat code :=
    ⟨by simpa [bad] using beyond, 0xFFFD, by decide, rfl⟩
  have notAscii : ¬ first < 0x80 := UInt8.not_lt.mpr beyond
  unfold lead
  rw [if_neg notAscii]
  split
  next => exact alone
  next second rest =>
    split
    next pair =>
      exact ⟨by simp [beyond, tail (isTail_of_isPair pair)], _, pair_code pair, rfl⟩
    next =>
      split
      next => exact alone
      next third rest =>
        split
        next triple =>
          obtain ⟨inner, last⟩ := isTail_of_isTriple triple
          exact ⟨by simp [beyond, tail inner, tail last], _, triple_code triple, rfl⟩
        next =>
          split
          next => exact alone
          next fourth rest =>
            split
            next quadruple =>
              obtain ⟨inner, middle, last⟩ := isTail_of_isQuadruple quadruple
              exact ⟨by simp [beyond, tail inner, tail middle, tail last], _,
                quadruple_code quadruple, rfl⟩
            next => exact alone

end Utf8

namespace Text

open Utf8

/-- The characters of one byte, but for the null character, which also stands for code points
that are none. -/
structure IsAscii (char : Char) : Prop where
  positive : char.toNat ≠ 0
  small : char.toNat < 0x80

theorem IsAscii.toNat_byte {char : Char} (ascii : IsAscii char) : (byte char).toNat = char.toNat := by
  have small := ascii.small
  simp only [byte, Nat.toUInt8, UInt8.toNat_ofNat']
  omega

theorem IsAscii.ofNat_eq {char : Char} (ascii : IsAscii char) {code : Nat}
    (same : Char.ofNat code = char) : code = char.toNat := by
  by_cases valid : code.isValidChar
  · rw [← same, Char.toNat_ofNat_of_valid valid]
  · have positive := ascii.positive
    rw [← same, Char.ofNat, dif_neg valid] at positive
    exact absurd rfl positive

theorem count_lead {char : Char} (ascii : IsAscii char) (first : UInt8) (rest : Text) :
    (lead first rest).bytes.count (byte char) = if (lead first rest).char = char then 1 else 0 := by
  have whole := ascii.toNat_byte
  by_cases beyond : 0x80 ≤ first
  · obtain ⟨bytes, code, above, same⟩ := lead_beyond rest beyond
    have small := ascii.small
    rw [if_neg, List.count_eq_zero]
    · intro member
      have bound := UInt8.le_iff_toNat_le.mp (bytes _ member)
      simp only [UInt8.reduceToNat] at bound
      omega
    · intro equal
      have exact := ascii.ofNat_eq (same.symm.trans equal)
      omega
  · have single : lead first rest = ⟨Char.ofNat first.toNat, [first]⟩ := by
      simp [lead, UInt8.not_le.mp beyond]
    rw [single, List.count_singleton]
    by_cases same : first = byte char
    · rw [same, whole, Char.ofNat_toNat]
      simp
    · have distinct : Char.ofNat first.toNat ≠ char := by
        intro equal
        exact same (UInt8.toNat_inj.mp ((ascii.ofNat_eq equal).trans whole.symm))
      simp [same, distinct]

/-- An ASCII character occurs as often as its byte. -/
theorem count_chars {char : Char} (ascii : IsAscii char) (text : Text) :
    text.chars.count char = text.count (byte char) := by
  generalize decoded : text.pieces = pieces
  induction pieces generalizing text with
  | nil =>
      cases text with
      | nil => rfl
      | cons first rest => simp [pieces, piecesFrom] at decoded
  | cons piece others induction =>
      cases text with
      | nil => simp [pieces, piecesFrom] at decoded
      | cons first rest =>
          obtain ⟨left, split, same⟩ := pieces_cons first rest
          rw [same] at decoded
          obtain ⟨rfl, later⟩ := List.cons.inj decoded
          have counted := induction left later
          rw [chars] at counted
          rw [chars, same, List.map_cons, List.count_cons, counted, split, List.count_append,
            count_lead ascii]
          simp [Nat.add_comm]

/-- A text may be cut in front of a byte that continues no sequence. -/
theorem pieces_append (front : Text) {behind : Text}
    (apart : ∀ byte ∈ behind.head?, isTail byte = false) :
    (front ++ behind).pieces = front.pieces ++ behind.pieces := by
  generalize decoded : front.pieces = pieces
  induction pieces generalizing front with
  | nil =>
      cases front with
      | nil => rfl
      | cons first rest => simp [pieces, piecesFrom] at decoded
  | cons piece others induction =>
      cases front with
      | nil => simp [pieces, piecesFrom] at decoded
      | cons first rest =>
          obtain ⟨left, split, same⟩ := pieces_cons first rest
          obtain ⟨more, splitMore, sameMore⟩ := pieces_cons first (rest ++ behind)
          rw [same] at decoded
          obtain ⟨rfl, later⟩ := List.cons.inj decoded
          rw [lead_append_of_not_tail first rest apart] at splitMore sameMore
          rw [← List.cons_append, split, List.append_assoc] at splitMore
          obtain rfl := List.append_cancel_left splitMore
          rw [List.cons_append, sameMore, List.cons_append, induction left later]

theorem pieces_single {first : UInt8} (ascii : first < 0x80) (rest : Text) :
    pieces (first :: rest) = ⟨Char.ofNat first.toNat, [first]⟩ :: rest.pieces := by
  have single : lead first rest = ⟨Char.ofNat first.toNat, [first]⟩ := by
    rw [lead.eq_def, if_pos ascii]
  obtain ⟨left, split, same⟩ := pieces_cons first rest
  rw [single, List.singleton_append] at split
  rw [same, single, (List.cons.inj split).2]

/-- An ASCII character was read from its byte. -/
theorem bytes_of_ascii {text : Text} {piece : Piece} (member : piece ∈ text.pieces)
    (ascii : IsAscii piece.char) : piece.bytes = [byte piece.char] := by
  obtain ⟨before, behind, cut⟩ := List.append_of_mem member
  obtain ⟨left, -, same⟩ := pieces_behind cut
  cases left with
  | nil => simp [pieces, piecesFrom] at same
  | cons first rest =>
      obtain ⟨more, -, read⟩ := pieces_cons first rest
      obtain ⟨rfl, -⟩ := List.cons.inj (read.symm.trans same)
      by_cases beyond : 0x80 ≤ first
      · obtain ⟨-, code, above, named⟩ := lead_beyond rest beyond
        have exact := ascii.ofNat_eq named.symm
        have small := ascii.small
        omega
      · have single : lead first rest = ⟨Char.ofNat first.toNat, [first]⟩ := by
          simp [lead, UInt8.not_le.mp beyond]
        rw [single] at ascii ⊢
        apply congrArg (fun byte => [byte])
        apply UInt8.toNat_inj.mp
        rw [ascii.toNat_byte]
        exact ascii.ofNat_eq rfl

/-- A text falls in three around an ASCII mark. -/
theorem pieces_mark {mark : Char} (ascii : IsAscii mark) (front behind : Text) :
    pieces (front ++ byte mark :: behind) = front.pieces ++ ⟨mark, [byte mark]⟩ :: behind.pieces := by
  have low : byte mark < 0x80 := by
    rw [UInt8.lt_iff_toNat_lt, ascii.toNat_byte]
    exact ascii.small
  have apart : ∀ next ∈ (byte mark :: behind).head?, isTail next = false := by
    intro next same
    obtain rfl := Option.some.inj same
    have short : ¬ (0x80 ≤ byte mark) := UInt8.not_le.mpr low
    simp [isTail, short]
  rw [pieces_append front apart, pieces_single low, ascii.toNat_byte, Char.ofNat_toNat]

end Text

end ScopeLint
