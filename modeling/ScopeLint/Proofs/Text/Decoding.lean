import ScopeLint.Proofs.Text.Ascii

/-!
Decoding against writing. A written character reads as itself, whatever follows it, and whatever is read
is a written character or a single byte at which no written character starts. This determines the
pieces of every text.
-/

namespace ScopeLint

namespace Utf8

open Text

theorem pair_ofNat {code : Nat} (low : 0x80 ≤ code) (high : code < 0x800) :
    isPair (.ofNat (code / 64 % 32 + 192)) (.ofNat (code % 64 + 128)) = true := by
  simp only [isPair, isTail, Bool.and_eq_true, decide_eq_true_eq, UInt8.le_iff_toNat_le,
    UInt8.toNat_ofNat', UInt8.reduceToNat]
  omega

theorem triple_ofNat {code : Nat} (low : 0x800 ≤ code) (high : code < 0x10000)
    (valid : code.isValidChar) :
    isTriple (.ofNat (code / 4096 % 16 + 224)) (.ofNat (code / 64 % 64 + 128))
      (.ofNat (code % 64 + 128)) = true := by
  simp only [isTriple, isTail, Bool.and_eq_true, decide_eq_true_eq, UInt8.le_iff_toNat_le,
    ← UInt8.toNat_inj, UInt8.toNat_ofNat', UInt8.reduceToNat]
  refine ⟨⟨⟨?_, ?_⟩, ?_⟩, ?_⟩
  · omega
  · omega
  · split <;> simp only [UInt8.reduceToNat] <;> omega
  · split <;> simp only [UInt8.reduceToNat] <;> omega

theorem quadruple_ofNat {code : Nat} (low : 0x10000 ≤ code) (valid : code.isValidChar) :
    isQuadruple (.ofNat (code / 262144 % 8 + 240)) (.ofNat (code / 4096 % 64 + 128))
      (.ofNat (code / 64 % 64 + 128)) (.ofNat (code % 64 + 128)) = true := by
  simp only [isQuadruple, isTail, Bool.and_eq_true, decide_eq_true_eq, UInt8.le_iff_toNat_le,
    ← UInt8.toNat_inj, UInt8.toNat_ofNat', UInt8.reduceToNat]
  refine ⟨⟨⟨⟨?_, ?_⟩, ?_⟩, ?_⟩, ?_⟩
  · omega
  · omega
  · omega
  · split <;> simp only [UInt8.reduceToNat] <;> omega
  · split <;> simp only [UInt8.reduceToNat] <;> omega

theorem lead_of_isPair {first second : UInt8} (pair : isPair first second = true) (rest : Text) :
    lead first (second :: rest) =
      ⟨Char.ofNat (first.toNat % 0x20 * 0x40 + payload second), [first, second]⟩ := by
  have bounds := pair
  simp only [isPair, Bool.and_eq_true, decide_eq_true_eq, UInt8.le_iff_toNat_le,
    UInt8.reduceToNat] at bounds
  have beyond : ¬ first < 0x80 := by
    simp only [UInt8.lt_iff_toNat_lt, UInt8.reduceToNat]
    omega
  simp only [lead, if_neg beyond, pair, if_true]

theorem lead_of_isTriple {first second third : UInt8} (triple : isTriple first second third = true)
    (rest : Text) :
    lead first (second :: third :: rest) =
      ⟨Char.ofNat ((first.toNat % 0x10 * 0x40 + payload second) * 0x40 + payload third),
        [first, second, third]⟩ := by
  have bounds := triple
  simp only [isTriple, Bool.and_eq_true, decide_eq_true_eq, UInt8.le_iff_toNat_le,
    UInt8.reduceToNat] at bounds
  have beyond : ¬ first < 0x80 := by
    simp only [UInt8.lt_iff_toNat_lt, UInt8.reduceToNat]
    omega
  have noPair : isPair first second = false := by
    simp only [isPair, Bool.and_eq_false_iff, decide_eq_false_iff_not, UInt8.le_iff_toNat_le,
      UInt8.reduceToNat]
    omega
  simp [lead, beyond, noPair, triple]

theorem lead_of_isQuadruple {first second third fourth : UInt8}
    (quadruple : isQuadruple first second third fourth = true) (rest : Text) :
    lead first (second :: third :: fourth :: rest) =
      ⟨Char.ofNat (((first.toNat % 0x08 * 0x40 + payload second) * 0x40 + payload third) * 0x40 +
        payload fourth), [first, second, third, fourth]⟩ := by
  have bounds := quadruple
  simp only [isQuadruple, Bool.and_eq_true, decide_eq_true_eq, UInt8.le_iff_toNat_le,
    UInt8.reduceToNat] at bounds
  have beyond : ¬ first < 0x80 := by
    simp only [UInt8.lt_iff_toNat_lt, UInt8.reduceToNat]
    omega
  have noPair : isPair first second = false := by
    simp only [isPair, Bool.and_eq_false_iff, decide_eq_false_iff_not, UInt8.le_iff_toNat_le,
      UInt8.reduceToNat]
    omega
  have noTriple : isTriple first second third = false := by
    simp only [isTriple, Bool.and_eq_false_iff, decide_eq_false_iff_not, UInt8.le_iff_toNat_le,
      UInt8.reduceToNat]
    omega
  simp [lead, beyond, noPair, noTriple, quadruple]

theorem lead_ofChar {char : Char} {first : UInt8} {rest behind : Text}
    (written : ofChar char ++ behind = first :: rest) : lead first rest = ⟨char, ofChar char⟩ := by
  have valid : char.toNat.isValidChar := char.valid
  have same : Char.ofNat char.toNat = char := Char.ofNat_toNat char
  have bytes : ofChar char = String.utf8EncodeChar char := rfl
  simp only [String.utf8EncodeChar, show char.val.toNat = char.toNat from rfl] at bytes
  generalize char.toNat = code at valid same bytes
  split at bytes
  next one =>
    rw [bytes, List.singleton_append] at written
    obtain ⟨rfl, rfl⟩ := List.cons.inj written
    have whole : (UInt8.ofNat code).toNat = code := by
      rw [UInt8.toNat_ofNat']
      omega
    have ascii : UInt8.ofNat code < 0x80 := by
      simp only [UInt8.lt_iff_toNat_lt, whole, UInt8.reduceToNat]
      omega
    rw [lead.eq_def, if_pos ascii, whole, same, bytes]
  next more =>
    split at bytes
    next two =>
      rw [bytes, List.cons_append, List.singleton_append] at written
      obtain ⟨rfl, rfl⟩ := List.cons.inj written
      have whole : (UInt8.ofNat (code / 64 % 32 + 192)).toNat % 0x20 * 0x40 +
          payload (.ofNat (code % 64 + 128)) = code := by
        simp only [payload, UInt8.toNat_ofNat']
        omega
      rw [lead_of_isPair (pair_ofNat (by omega) (by omega)), whole, same, bytes]
    next more =>
      split at bytes
      next three =>
        rw [bytes, List.cons_append, List.cons_append, List.singleton_append] at written
        obtain ⟨rfl, rfl⟩ := List.cons.inj written
        have whole : ((UInt8.ofNat (code / 4096 % 16 + 224)).toNat % 0x10 * 0x40 +
            payload (.ofNat (code / 64 % 64 + 128))) * 0x40 +
            payload (.ofNat (code % 64 + 128)) = code := by
          simp only [payload, UInt8.toNat_ofNat']
          omega
        rw [lead_of_isTriple (triple_ofNat (by omega) (by omega) valid), whole, same, bytes]
      next four =>
        rw [bytes, List.cons_append, List.cons_append, List.cons_append, List.singleton_append] at written
        obtain ⟨rfl, rfl⟩ := List.cons.inj written
        have whole : (((UInt8.ofNat (code / 262144 % 8 + 240)).toNat % 0x08 * 0x40 +
            payload (.ofNat (code / 4096 % 64 + 128))) * 0x40 +
            payload (.ofNat (code / 64 % 64 + 128))) * 0x40 +
            payload (.ofNat (code % 64 + 128)) = code := by
          simp only [payload, UInt8.toNat_ofNat']
          omega
        rw [lead_of_isQuadruple (quadruple_ofNat (by omega) valid), whole, same, bytes]

theorem ofChar_ofNat {code : Nat} (valid : code.isValidChar) :
    ofChar (Char.ofNat code) =
      if code ≤ 0x7F then [.ofNat code]
      else if code ≤ 0x7FF then [.ofNat (code / 64 % 32 + 192), .ofNat (code % 64 + 128)]
      else if code ≤ 0xFFFF then
        [.ofNat (code / 4096 % 16 + 224), .ofNat (code / 64 % 64 + 128), .ofNat (code % 64 + 128)]
      else
        [.ofNat (code / 262144 % 8 + 240), .ofNat (code / 4096 % 64 + 128),
          .ofNat (code / 64 % 64 + 128), .ofNat (code % 64 + 128)] := by
  have same : (Char.ofNat code).val.toNat = code := Char.toNat_ofNat_of_valid valid
  simp only [ofChar, String.utf8EncodeChar, same]

theorem ofChar_pair {first second : UInt8} (pair : isPair first second = true) :
    ofChar (Char.ofNat (first.toNat % 0x20 * 0x40 + payload second)) = [first, second] := by
  simp only [isPair, isTail, Bool.and_eq_true, decide_eq_true_eq, UInt8.le_iff_toNat_le,
    UInt8.reduceToNat] at pair
  simp only [payload]
  rw [ofChar_ofNat (.inl (by omega)), if_neg (by omega), if_pos (by omega)]
  simp only [List.cons.injEq, and_true, ← UInt8.toNat_inj, UInt8.toNat_ofNat']
  omega

theorem ofChar_triple {first second third : UInt8} (triple : isTriple first second third = true) :
    ofChar (Char.ofNat ((first.toNat % 0x10 * 0x40 + payload second) * 0x40 + payload third)) =
      [first, second, third] := by
  simp only [isTriple, isTail, Bool.and_eq_true, decide_eq_true_eq, UInt8.le_iff_toNat_le,
    ← UInt8.toNat_inj, UInt8.reduceToNat] at triple
  obtain ⟨⟨⟨range, last⟩, low⟩, high⟩ := triple
  have least : 0x800 ≤ first.toNat % 0x10 * 0x1000 + second.toNat % 0x40 * 0x40 := by
    split at low <;> simp only [UInt8.reduceToNat] at low <;> split at high <;>
      simp only [UInt8.reduceToNat] at high <;> omega
  have inner : 0x80 ≤ second.toNat ∧ second.toNat ≤ 0xBF := by
    split at low <;> simp only [UInt8.reduceToNat] at low <;> split at high <;>
      simp only [UInt8.reduceToNat] at high <;> omega
  -- Behind 0xED the second byte keeps the number below the surrogates.
  have apart : first.toNat = 0xED → second.toNat ≤ 0x9F := by
    intro same
    simpa only [same, if_true, UInt8.reduceToNat] using high
  simp only [payload]
  rw [ofChar_ofNat (by omega), if_neg (by omega), if_neg (by omega), if_pos (by omega)]
  simp only [List.cons.injEq, and_true, ← UInt8.toNat_inj, UInt8.toNat_ofNat']
  omega

theorem ofChar_quadruple {first second third fourth : UInt8}
    (quadruple : isQuadruple first second third fourth = true) :
    ofChar (Char.ofNat (((first.toNat % 0x08 * 0x40 + payload second) * 0x40 + payload third) * 0x40 +
      payload fourth)) = [first, second, third, fourth] := by
  simp only [isQuadruple, isTail, Bool.and_eq_true, decide_eq_true_eq, UInt8.le_iff_toNat_le,
    ← UInt8.toNat_inj, UInt8.reduceToNat] at quadruple
  obtain ⟨⟨⟨⟨range, middle⟩, last⟩, low⟩, high⟩ := quadruple
  have least : 0x10000 ≤ first.toNat % 0x08 * 0x40000 + second.toNat % 0x40 * 0x1000 := by
    split at low <;> simp only [UInt8.reduceToNat] at low <;> split at high <;>
      simp only [UInt8.reduceToNat] at high <;> omega
  have inner : 0x80 ≤ second.toNat ∧ second.toNat ≤ 0xBF := by
    split at low <;> simp only [UInt8.reduceToNat] at low <;> split at high <;>
      simp only [UInt8.reduceToNat] at high <;> omega
  -- Behind 0xF4 the second byte keeps the number below the last one.
  have apart : first.toNat = 0xF4 → second.toNat ≤ 0x8F := by
    intro same
    simpa only [same, if_true, UInt8.reduceToNat] using high
  simp only [payload]
  rw [ofChar_ofNat (by omega), if_neg (by omega), if_neg (by omega), if_neg (by omega)]
  simp only [List.cons.injEq, and_true, ← UInt8.toNat_inj, UInt8.toNat_ofNat']
  omega

/-- Whatever is read is a written character or a byte by itself. -/
theorem lead_written (first : UInt8) (rest : Text) :
    (lead first rest).bytes = ofChar (lead first rest).char ∨ lead first rest = bad first := by
  unfold lead
  split
  next ascii =>
    left
    have small : first.toNat < 0x80 := UInt8.lt_iff_toNat_lt.mp ascii
    rw [ofChar_ofNat (.inl (by omega)), if_pos (by omega), UInt8.ofNat_toNat]
  next =>
    split
    next => exact .inr rfl
    next second rest =>
      split
      next pair => exact .inl (ofChar_pair pair).symm
      next =>
        split
        next => exact .inr rfl
        next third rest =>
          split
          next triple => exact .inl (ofChar_triple triple).symm
          next =>
            split
            next => exact .inr rfl
            next fourth rest =>
              split
              next quadruple => exact .inl (ofChar_quadruple quadruple).symm
              next => exact .inr rfl

/-- No written character starts at a byte that is read by itself. -/
theorem not_written_of_bad {first : UInt8} {rest : Text} (alone : lead first rest = bad first)
    (char : Char) : ¬ ofChar char <+: first :: rest := by
  rintro ⟨behind, written⟩
  obtain ⟨rfl, bytes⟩ := Piece.mk.inj ((lead_ofChar written).symm.trans alone)
  -- The character that stands for such a byte is written with three.
  have three : (ofChar replacement).length = 3 := by decide +kernel
  rw [bytes] at three
  cases three

end Utf8

/-- The pieces of a text, by how characters are written: as long as a written character starts the text
it is the next piece, and otherwise the next byte is, as U+FFFD. -/
inductive Text.Decodes : Text → List Piece → Prop
  | nil : Decodes [] []
  | char (char : Char) {rest : Text} {pieces : List Piece} (later : Decodes rest pieces) :
      Decodes (ofChar char ++ rest) (⟨char, ofChar char⟩ :: pieces)
  | bad {byte : UInt8} {rest : Text} {pieces : List Piece}
      (apart : ∀ char, ¬ ofChar char <+: byte :: rest) (later : Decodes rest pieces) :
      Decodes (byte :: rest) (⟨Utf8.replacement, [byte]⟩ :: pieces)

namespace Text

open Utf8

theorem ofChar_ne_nil (char : Char) : ofChar char ≠ [] := by
  simp only [ofChar, String.utf8EncodeChar]
  repeat' split
  all_goals exact List.cons_ne_nil _ _

theorem ofChars_append (front behind : List Char) :
    ofChars (front ++ behind) = ofChars front ++ ofChars behind :=
  List.flatMap_append

theorem pieces_ofChar_append (char : Char) (rest : Text) :
    (ofChar char ++ rest).pieces = ⟨char, ofChar char⟩ :: rest.pieces := by
  obtain ⟨first, tail, bytes⟩ := List.exists_cons_of_ne_nil (ofChar_ne_nil char)
  have written : ofChar char ++ rest = first :: (tail ++ rest) := by rw [bytes, List.cons_append]
  obtain ⟨left, split, same⟩ := pieces_cons first (tail ++ rest)
  rw [lead_ofChar written] at split same
  rw [← written] at split same
  rw [same, List.append_cancel_left split]

/-- Written characters read as themselves. -/
theorem pieces_ofChars (chars : List Char) :
    (ofChars chars).pieces = chars.map fun char => ⟨char, ofChar char⟩ := by
  induction chars with
  | nil => rfl
  | cons char rest induction =>
      rw [ofChars, List.flatMap_cons, pieces_ofChar_append]
      exact congrArg (List.cons _) induction

theorem chars_ofChars (chars : List Char) : (ofChars chars).chars = chars := by
  rw [Text.chars, pieces_ofChars, List.map_map]
  exact List.map_id _

theorem chars_ofChars_append (chars : List Char) (rest : Text) :
    (ofChars chars ++ rest).chars = chars ++ rest.chars := by
  induction chars with
  | nil => rfl
  | cons char chars induction =>
      rw [ofChars, List.flatMap_cons, List.append_assoc, Text.chars, pieces_ofChar_append]
      exact congrArg (List.cons char) induction

theorem decodes_pieces (text : Text) : text.Decodes text.pieces := by
  generalize decoded : text.pieces = pieces
  induction pieces generalizing text with
  | nil =>
      cases text with
      | nil => exact .nil
      | cons first rest => simp [pieces, piecesFrom] at decoded
  | cons piece others induction =>
      cases text with
      | nil => simp [pieces, piecesFrom] at decoded
      | cons first rest =>
          obtain ⟨left, split, same⟩ := pieces_cons first rest
          rw [same] at decoded
          obtain ⟨rfl, later⟩ := List.cons.inj decoded
          have behind := induction left later
          rcases lead_written first rest with written | alone
          · rw [split, written]
            have whole : lead first rest = ⟨(lead first rest).char, ofChar (lead first rest).char⟩ := by
              rw [← written]
            rw [whole]
            exact .char _ behind
          · rw [alone] at split ⊢
            obtain ⟨-, rfl⟩ := List.cons.inj split
            exact .bad (not_written_of_bad alone) behind

theorem Decodes.eq_pieces {text : Text} {pieces : List Piece} (decodes : text.Decodes pieces) :
    pieces = text.pieces := by
  induction decodes with
  | nil => rfl
  | char char later induction => rw [pieces_ofChar_append, induction]
  | @bad byte rest pieces apart later induction =>
      obtain ⟨left, split, same⟩ := pieces_cons byte rest
      have alone : lead byte rest = Utf8.bad byte := by
        refine (lead_written byte rest).resolve_left fun written => ?_
        exact apart (lead byte rest).char ⟨left, by rw [← written, ← split]⟩
      rw [alone] at split same
      obtain ⟨-, rfl⟩ := List.cons.inj split
      rw [same, induction]
      rfl

/-- What is left of a written character that has been cut reads as nothing. -/
theorem replacement_mem_chars {char : Char} {front : Text} (part : front <+: ofChar char)
    (nonempty : front ≠ []) (cut : front ≠ ofChar char) : Utf8.replacement ∈ front.chars := by
  obtain ⟨first, rest, rfl⟩ := List.exists_cons_of_ne_nil nonempty
  obtain ⟨left, split, same⟩ := pieces_cons first rest
  have head : (Utf8.lead first rest).char ∈ Text.chars (first :: rest) :=
    List.mem_map_of_mem (same ▸ List.mem_cons_self)
  rcases lead_written first rest with written | alone
  · -- A whole character in front of the cut would be the cut one.
    exfalso
    obtain ⟨behind, joined⟩ := part
    rw [split, written, List.append_assoc] at joined
    have pieces := pieces_ofChar_append (lead first rest).char (left ++ behind)
    have whole := pieces_ofChar_append char []
    rw [List.append_nil, ← joined, pieces] at whole
    have char_eq := congrArg Piece.char (List.cons.inj whole).1
    dsimp only at char_eq
    rw [char_eq] at joined written
    have nothing := List.append_eq_nil_iff.mp (List.append_right_eq_self.mp joined)
    rw [split, written, nothing.1, List.append_nil] at cut
    exact cut rfl
  · rw [alone] at head
    exact head

/-- Written characters up to some number of bytes: whole characters, and perhaps a piece of the next. -/
theorem take_ofChars (chars : List Char) (count : Nat) :
    ∃ front behind, chars = front ++ behind ∧
      ((ofChars chars).take count = ofChars front ∨
        ∃ part : Text, (ofChars chars).take count = ofChars front ++ part ∧
          Utf8.replacement ∈ part.chars) := by
  induction chars generalizing count with
  | nil => exact ⟨[], [], rfl, .inl (by rw [ofChars, List.flatMap_nil, List.take_nil])⟩
  | cons char rest induction =>
      rw [ofChars, List.flatMap_cons, List.take_append]
      by_cases whole : (ofChar char).length ≤ count
      · obtain ⟨front, behind, split, taken⟩ := induction (count - (ofChar char).length)
        refine ⟨char :: front, behind, by rw [split, List.cons_append], ?_⟩
        rw [List.take_of_length_le whole, ofChars, List.flatMap_cons]
        rcases taken with taken | ⟨part, taken, missing⟩
        · exact .inl (congrArg _ taken)
        · exact .inr ⟨part, by rw [List.append_assoc]; exact congrArg _ taken, missing⟩
      · refine ⟨[], char :: rest, rfl, ?_⟩
        rw [Nat.sub_eq_zero_of_le (by omega), List.take_zero, List.append_nil]
        rcases Nat.eq_zero_or_pos count with rfl | positive
        · exact .inl rfl
        · refine .inr ⟨_, rfl, replacement_mem_chars (List.take_prefix count _) ?_ ?_⟩
          · have length := congrArg List.length (List.take_append_drop count (ofChar char))
            intro nothing
            rw [nothing, List.nil_append, List.length_drop] at length
            omega
          · intro same
            have length := congrArg List.length same
            rw [List.length_take] at length
            omega

theorem length_ofChar_eq_one {char : Char} : (ofChar char).length = 1 ↔ char.toNat < 0x80 := by
  rw [ofChar, String.length_utf8EncodeChar, Char.utf8Size_eq_one_iff]
  exact Nat.lt_succ_iff.symm

theorem length_le_ofChars (chars : List Char) : chars.length ≤ (ofChars chars).length := by
  induction chars with
  | nil => exact Nat.le_refl _
  | cons char rest induction =>
      have positive := List.length_pos_iff.mpr (ofChar_ne_nil char)
      rw [ofChars] at induction
      rw [ofChars, List.flatMap_cons, List.length_append, List.length_cons]
      omega

/-- Only ASCII characters are written with a byte each. -/
theorem length_ofChars_eq {chars : List Char} :
    (ofChars chars).length = chars.length ↔ ∀ char ∈ chars, char.toNat < 0x80 := by
  induction chars with
  | nil => simp [ofChars]
  | cons char rest induction =>
      have positive := List.length_pos_iff.mpr (ofChar_ne_nil char)
      have more := length_le_ofChars rest
      rw [List.forall_mem_cons, ← length_ofChar_eq_one, ← induction]
      rw [ofChars] at more ⊢
      rw [List.flatMap_cons, List.length_append, List.length_cons, ofChars]
      omega

end Text

end ScopeLint
