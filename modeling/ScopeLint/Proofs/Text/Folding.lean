import ScopeLint.Proofs.Text.Case
import ScopeLint.Proofs.Text.Decoding

/-!
Lowercase forms over the whole character database. No lowercase form has another one, which is read off
the runs of the table: what one run maps to is apart from what any run covers. Nothing but U+FFFD itself
folds to U+FFFD.
-/

namespace ScopeLint.Text

namespace CaseRun

variable {run other : CaseRun} {point : Nat}

theorem covers_iff : run.covers point = true ↔
    (run.first ≤ point ∧ point ≤ run.last) ∧ (point - run.first) % run.step = 0 := by
  simp only [covers, Bool.and_eq_true, decide_eq_true_eq]

def images (run : CaseRun) : CaseRun :=
  { run with first := run.target, last := run.target + (run.last - run.first) }

def sparse (run : CaseRun) : Bool := run.step == 2 || run.first == run.last

/-- Whether two runs have no number in common: their ranges do not meet, or one of them has even numbers
and the other odd ones. -/
def apart (run other : CaseRun) : Bool :=
  run.last.blt other.first || other.last.blt run.first ||
    (run.sparse && other.sparse && (run.first + other.first) % 2 == 1)

theorem not_covers_of_apart (distinct : run.apart other = true) (covered : run.covers point = true) :
    other.covers point = false := by
  rw [Bool.eq_false_iff]
  intro both
  obtain ⟨⟨low, high⟩, steps⟩ := covers_iff.mp covered
  obtain ⟨⟨lowOther, highOther⟩, stepsOther⟩ := covers_iff.mp both
  simp only [apart, sparse, Bool.and_eq_true, Bool.or_eq_true, Nat.blt_eq, beq_iff_eq] at distinct
  obtain (below | above) | ⟨⟨two | one, twoOther | oneOther⟩, odd⟩ := distinct
  · omega
  · omega
  · rw [two] at steps
    rw [twoOther] at stepsOther
    omega
  · rw [two] at steps
    omega
  · rw [twoOther] at stepsOther
    omega
  · omega

theorem covers_images (covered : run.covers point = true) :
    run.images.covers (run.target + (point - run.first)) = true := by
  obtain ⟨⟨low, high⟩, steps⟩ := covers_iff.mp covered
  refine covers_iff.mpr ⟨⟨Nat.le_add_right _ _, ?_⟩, ?_⟩
  · exact Nat.add_le_add_left (Nat.sub_le_sub_right high _) _
  · exact (congrArg (· % run.step) (Nat.add_sub_cancel_left _ _)).trans steps

/-- Whether a run maps to numbers of characters, and to no capital letter of ASCII. -/
def sound (run : CaseRun) : Bool :=
  0x61 ≤ run.target &&
    (run.images.last < 0xD800 || 0xDFFF < run.target && run.images.last < 0x110000)

end CaseRun

theorem lowerAscii_cases (char : Char) :
    0x41 ≤ char.toNat ∧ char.toNat ≤ 0x5A ∧ (lowerAscii char).toNat = char.toNat + 0x20 ∨
      (char.toNat < 0x41 ∨ 0x5A < char.toNat) ∧ lowerAscii char = char := by
  have low : 'A' ≤ char ↔ 0x41 ≤ char.toNat := Iff.rfl
  have high : char ≤ 'Z' ↔ char.toNat ≤ 0x5A := Iff.rfl
  unfold lowerAscii
  split
  next capital =>
    rw [Bool.and_eq_true, decide_eq_true_eq, decide_eq_true_eq, low, high] at capital
    exact .inl ⟨capital.1, capital.2, Char.toNat_ofNat_of_valid (.inl (by omega))⟩
  next other =>
    rw [Bool.and_eq_true, decide_eq_true_eq, decide_eq_true_eq, low, high] at other
    exact .inr ⟨by omega, rfl⟩

theorem lowerAscii_of_le {char : Char} (beyond : 0x5B ≤ char.toNat) : lowerAscii char = char := by
  rcases lowerAscii_cases char with ⟨_, high, _⟩ | ⟨_, same⟩
  · omega
  · exact same

theorem lowerAscii_lowerAscii (char : Char) : lowerAscii (lowerAscii char) = lowerAscii char := by
  rcases lowerAscii_cases char with ⟨low, _, moved⟩ | ⟨_, same⟩
  · exact lowerAscii_of_le (by omega)
  · rw [same, same]

theorem toNat_lowerAscii {char : Char} (ascii : char.toNat < 0x80) :
    (lowerAscii char).toNat < 0x80 := by
  rcases lowerAscii_cases char with ⟨_, _, moved⟩ | ⟨_, same⟩
  · omega
  · rwa [same]

/-- A character stays where it is, or moves to the image of a run that covers it. -/
theorem mapCase_cases (runs : List CaseRun) (char : Char) :
    mapCase runs char = char ∨ ∃ run ∈ runs, run.covers char.toNat = true ∧
      mapCase runs char = Char.ofNat (run.target + (char.toNat - run.first)) := by
  cases found : runs.find? fun run => run.covers char.toNat with
  | none => exact .inl (by rw [mapCase, found])
  | some run =>
      exact .inr ⟨run, List.mem_of_find?_eq_some found,
        List.find?_some (p := fun run : CaseRun => run.covers char.toNat) found, by rw [mapCase, found]⟩

theorem toNat_image {run : CaseRun} (sound : run.sound = true) {point : Nat}
    (covered : run.covers point = true) :
    (Char.ofNat (run.target + (point - run.first))).toNat = run.target + (point - run.first) := by
  obtain ⟨low, high⟩ := (CaseRun.covers_iff.mp (CaseRun.covers_images covered)).1
  simp only [CaseRun.sound, Bool.and_eq_true, Bool.or_eq_true, decide_eq_true_eq] at sound
  refine Char.toNat_ofNat_of_valid ?_
  unfold Nat.isValidChar
  omega

theorem apart_lowerRuns {run other : CaseRun} (member : run ∈ lowerRuns) (inside : other ∈ lowerRuns) :
    run.images.apart other = true := by
  have all : (lowerRuns.all fun run => lowerRuns.all run.images.apart) = true := by decide +kernel
  exact List.all_eq_true.mp (List.all_eq_true.mp all run member) other inside

theorem lowerChar_lowerChar (char : Char) : lowerChar (lowerChar char) = lowerChar char := by
  by_cases ascii : char.toNat < 0x80
  · have once : lowerChar char = lowerAscii char := if_pos ascii
    rw [once, lowerChar, if_pos (toNat_lowerAscii ascii), lowerAscii_lowerAscii]
  · have once : lowerChar char = mapCase lowerRuns char := if_neg ascii
    rcases mapCase_cases lowerRuns char with same | ⟨run, member, covered, mapped⟩
    · rw [once, same, once, same]
    · have sound : ∀ run ∈ lowerRuns, run.sound = true := by decide +kernel
      have number := toNat_image (sound run member) covered
      rw [once, mapped]
      unfold lowerChar
      split
      next =>
        have checked := sound run member
        simp only [CaseRun.sound, Bool.and_eq_true, decide_eq_true_eq] at checked
        exact lowerAscii_of_le (by omega)
      next =>
        have outside : lowerRuns.find? (fun other => other.covers
            (Char.ofNat (run.target + (char.toNat - run.first))).toNat) = none := by
          refine List.find?_eq_none.mpr fun other inside => ?_
          rw [number, CaseRun.not_covers_of_apart (apart_lowerRuns member inside)
            (CaseRun.covers_images covered)]
          exact Bool.false_ne_true
        rw [mapCase, outside]

theorem map_lowerChar_self (chars : List Char) :
    (chars.map lowerChar).map lowerChar = chars.map lowerChar := by
  rw [List.map_map]
  exact List.map_congr_left fun char _ => lowerChar_lowerChar char

theorem lower_ofChars (chars : List Char) : (ofChars chars).lower = ofChars (chars.map lowerChar) := by
  rw [lower, chars_ofChars]

theorem fold_ofChars (chars : List Char) : (ofChars chars).fold = chars.map foldChar := by
  rw [fold, chars_ofChars]

theorem foldChar_of_ascii {char : Char} (ascii : char.toNat < 0x80) : foldChar char = lowerChar char := by
  rw [foldChar, lowerChar, if_pos ascii, if_pos ascii]

theorem foldChar_eq_replacement {char : Char} (folded : foldChar char = Utf8.replacement) :
    char = Utf8.replacement := by
  have code : Utf8.replacement.toNat = 0xFFFD := rfl
  unfold foldChar at folded
  split at folded
  next ascii =>
    have small := toNat_lowerAscii ascii
    rw [folded] at small
    omega
  next =>
    rcases mapCase_cases foldRuns char with same | ⟨run, member, covered, mapped⟩
    · exact same.symm.trans folded
    · have sound : ∀ run ∈ foldRuns, run.sound = true := by decide +kernel
      have apart : ∀ run ∈ foldRuns, run.images.last < 0xFFFD ∨ 0xFFFD < run.target := by
        decide +kernel
      have number := toNat_image (sound run member) covered
      obtain ⟨low, high⟩ := (CaseRun.covers_iff.mp (CaseRun.covers_images covered)).1
      have outside := apart run member
      rw [← mapped, folded] at number
      change run.target ≤ _ at low
      omega

end ScopeLint.Text
