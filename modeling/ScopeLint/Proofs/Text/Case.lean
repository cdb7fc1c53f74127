import ScopeLint.Proofs.Text.Ascii
import ScopeLint.Text.Case

/-!
What changing the case of letters cannot make: the marks and digits of ASCII. They come before the
small letters, and no letter of any script has a case variant there.
-/

namespace ScopeLint.Text

variable {mark : Char}

theorem mapCase_eq {runs : List CaseRun} (targets : ∀ run ∈ runs, 0x61 ≤ run.target)
    (ascii : IsAscii mark) (low : mark.toNat < 0x61) {char : Char}
    (mapped : mapCase runs char = mark) : char = mark := by
  unfold mapCase at mapped
  split at mapped
  next run found =>
    have target := targets run (List.mem_of_find?_eq_some found)
    have code := ascii.ofNat_eq mapped
    omega
  next => exact mapped

theorem lowerAscii_eq (ascii : IsAscii mark) (low : mark.toNat < 0x61) {char : Char}
    (mapped : lowerAscii char = mark) : char = mark := by
  unfold lowerAscii at mapped
  split at mapped
  next capital =>
    simp only [Bool.and_eq_true, decide_eq_true_eq] at capital
    have above : 'A'.toNat ≤ char.toNat := capital.1
    have first : 'A'.toNat = 0x41 := rfl
    have code := ascii.ofNat_eq mapped
    omega
  next => exact mapped

theorem lowerChar_eq (ascii : IsAscii mark) (low : mark.toNat < 0x61) {char : Char}
    (mapped : lowerChar char = mark) : char = mark := by
  unfold lowerChar at mapped
  split at mapped
  next => exact lowerAscii_eq ascii low mapped
  next => exact mapCase_eq (by decide +kernel) ascii low mapped

theorem foldChar_eq (ascii : IsAscii mark) (low : mark.toNat < 0x61) {char : Char}
    (mapped : foldChar char = mark) : char = mark := by
  unfold foldChar at mapped
  split at mapped
  next => exact lowerAscii_eq ascii low mapped
  next => exact mapCase_eq (by decide +kernel) ascii low mapped

theorem le_of_mem_ofChar {char : Char} (beyond : 0x7F < char.toNat) {byte : UInt8}
    (member : byte ∈ ofChar char) : 0x80 ≤ byte.toNat := by
  have above (code : Nat) (large : 0x80 ≤ code % 256) (same : byte = UInt8.ofNat code) :
      0x80 ≤ byte.toNat := by
    rwa [same, UInt8.toNat_ofNat']
  simp only [ofChar, String.utf8EncodeChar] at member
  split at member
  next short => exact absurd short (Nat.not_le.mpr beyond)
  next =>
    split at member
    next =>
      simp only [List.mem_cons, List.not_mem_nil, or_false] at member
      rcases member with same | same <;> exact above _ (by omega) same
    next =>
      split at member
      next =>
        simp only [List.mem_cons, List.not_mem_nil, or_false] at member
        rcases member with same | same | same <;> exact above _ (by omega) same
      next =>
        simp only [List.mem_cons, List.not_mem_nil, or_false] at member
        rcases member with same | same | same | same <;> exact above _ (by omega) same

/-- Of all characters only an ASCII one is written with its byte. -/
theorem eq_of_byte_mem (ascii : IsAscii mark) {char : Char} (member : byte mark ∈ ofChar char) :
    char = mark := by
  have whole := ascii.toNat_byte
  have small := ascii.small
  by_cases beyond : 0x7F < char.toNat
  · have large := le_of_mem_ofChar beyond member
    omega
  · have short : char.val.toNat ≤ 0x7F := Nat.not_lt.mp beyond
    simp only [ofChar, String.utf8EncodeChar, if_pos short] at member
    have same : mark.toNat = char.toNat := by
      rw [← whole, List.mem_singleton.mp member, UInt8.toNat_ofNat']
      exact Nat.mod_eq_of_lt (by omega)
    rw [← Char.ofNat_toNat char, ← Char.ofNat_toNat mark, same]

theorem mem_of_mem_lower (ascii : IsAscii mark) (low : mark.toNat < 0x61) {text : Text}
    (member : byte mark ∈ text.lower) : mark ∈ text.chars := by
  obtain ⟨lowered, inside, written⟩ := List.mem_flatMap.mp member
  obtain ⟨char, original, rfl⟩ := List.mem_map.mp inside
  exact lowerChar_eq ascii low (eq_of_byte_mem ascii written) ▸ original

theorem lower_mark (ascii : IsAscii mark) (front behind : Text) :
    lower (front ++ byte mark :: behind) = front.lower ++ (ofChar (lowerChar mark) ++ behind.lower) := by
  rw [lower, chars, pieces_mark ascii, List.map_append, List.map_cons, List.map_append, List.map_cons,
    ofChars, List.flatMap_append, List.flatMap_cons]
  rfl

theorem mem_of_mem_fold (ascii : IsAscii mark) (low : mark.toNat < 0x61) {text : Text}
    (member : mark ∈ text.fold) : mark ∈ text.chars := by
  obtain ⟨char, original, folded⟩ := List.mem_map.mp member
  exact foldChar_eq ascii low folded ▸ original

end ScopeLint.Text
