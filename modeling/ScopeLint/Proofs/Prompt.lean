import Mathlib.Data.List.Basic
import ScopeLint.Prompt
import ScopeLint.Proofs.Table
import ScopeLint.Proofs.Text.Folding

/-!
What the prompt offers while a command is typed. A name is cut at the number of bytes of the typed text and
offered when the cut differs from it in letter case only. The names themselves are in lowercase, so this is
right as long as the lowercase form of the typed text has its number of bytes, and no other lowercase text
that differs in letter case only has it too. All of ASCII is so.
-/

namespace ScopeLint

namespace NameSet

open Text

variable {words : List Text} {set : NameSet} {name : Text}

theorem contains_iff : set.contains name = true ↔ name.lower ∈ set.names :=
  (Table.mem_keys set.members name.lower).symm

theorem mem_names_insertAll :
    name ∈ (set.insertAll words).names ↔ (∃ word ∈ words, word.lower = name) ∨ name ∈ set.names := by
  induction words generalizing set with
  | nil => simp [insertAll]
  | cons word words induction =>
      have step : name ∈ (set.insert word).names ↔ word.lower = name ∨ name ∈ set.names := by
        unfold names insert
        rw [Table.mem_keys, Table.mem_keys, Table.contains_iff, Table.contains_iff, Table.get_insert]
        split
        next same => simp [same]
        next other => simp [Ne.symm other]
      rw [insertAll, List.foldl_cons]
      refine induction.trans ?_
      simp only [step, List.mem_cons, exists_eq_or_imp, or_left_comm, or_assoc]

theorem mem_names : name ∈ (ofNames words).names ↔ ∃ word ∈ words, word.lower = name := by
  rw [ofNames, mem_names_insertAll]
  exact or_iff_left (List.not_mem_nil)

theorem exists_chars (member : name ∈ (ofNames words).names) :
    ∃ chars : List Char, chars.map lowerChar = chars ∧ name = ofChars chars := by
  obtain ⟨word, -, rfl⟩ := mem_names.mp member
  exact ⟨word.chars.map lowerChar, map_lowerChar_self word.chars, rfl⟩

end NameSet

namespace Prompt

open Text

variable {start : List Char} {words : List Text}

theorem typed_append {front : List Char} (stops : ∀ char ∈ front.getLast?, separates char = true)
    (runs : ∀ char ∈ start, separates char = false) : typed (front ++ start) = start := by
  have all : ∀ char ∈ start.reverse, (!separates char) = true := by
    intro char member
    rw [runs char (List.mem_reverse.mp member)]
    rfl
  rw [typed, List.reverse_append, List.takeWhile_append_of_pos all]
  cases last : front.reverse with
  | nil => rw [List.takeWhile_nil, List.append_nil, List.reverse_reverse]
  | cons char rest =>
      have stop := stops char (by rw [← List.head?_reverse, last]; rfl)
      rw [List.takeWhile_cons_of_neg (by simp [stop]), List.append_nil, List.reverse_reverse]

/-- The name of some characters is offered when its first ones differ from what is typed in letter case only
and have as many bytes, with others behind them. -/
theorem completion_ofChars (written : Utf8.replacement ∉ start) (chars : List Char) (candidate : Text) :
    completion? (ofChars start) (ofChars chars) = some candidate ↔
      ∃ front behind, chars = front ++ behind ∧ behind ≠ [] ∧ front.map foldChar = start.map foldChar ∧
        (ofChars front).length = (ofChars start).length ∧ candidate = ofChars behind := by
  constructor
  · intro offered
    unfold completion? at offered
    split at offered
    next passed =>
      rw [Bool.and_eq_true, decide_eq_true_eq, sameFold, decide_eq_true_eq, fold_ofChars] at passed
      obtain ⟨short, same⟩ := passed
      have length := List.length_take_of_le (Nat.le_of_lt short)
      obtain ⟨front, behind, rfl, whole | ⟨part, cut, missing⟩⟩ := take_ofChars chars (ofChars start).length
      · rw [whole, fold_ofChars] at same
        rw [whole] at length
        rw [ofChars_append, List.drop_left' length, chars_ofChars] at offered
        refine ⟨front, behind, rfl, ?_, same, length, (Option.some.inj offered).symm⟩
        rintro rfl
        rw [List.append_nil, length] at short
        exact absurd short (Nat.lt_irrefl _)
      · -- A piece of a character would fold to something that is not typed.
        rw [cut, fold, chars_ofChars_append, List.map_append] at same
        have folded : foldChar Utf8.replacement ∈ start.map foldChar :=
          same ▸ List.mem_append_right _ (List.mem_map_of_mem missing)
        obtain ⟨char, member, replaced⟩ := List.mem_map.mp folded
        have itself : foldChar Utf8.replacement = Utf8.replacement := by decide +kernel
        exact absurd (foldChar_eq_replacement (replaced.trans itself) ▸ member) written
    next => cases offered
  · rintro ⟨front, behind, rfl, nonempty, same, length, rfl⟩
    have more : 0 < (ofChars behind).length := by
      obtain ⟨char, rest, rfl⟩ := List.exists_cons_of_ne_nil nonempty
      rw [ofChars, List.flatMap_cons, List.length_append]
      exact Nat.add_pos_left (List.length_pos_iff.mpr (ofChar_ne_nil char)) _
    have short : (ofChars start).length < (ofChars (front ++ behind)).length := by
      rw [ofChars_append, List.length_append]
      omega
    have folded : sameFold (ofChars front) (ofChars start) = true := by
      rw [sameFold, fold_ofChars, fold_ofChars, same]
      exact decide_eq_true rfl
    rw [completion?, ofChars_append, List.take_left' length, List.drop_left' length, ← ofChars_append, folded,
      decide_eq_true short, chars_ofChars]
    rfl

/-- Typed characters for which a lowercase text differs from them in letter case only and has as many bytes
just when it is their lowercase form. -/
def Steady (start : List Char) : Prop :=
  ∀ chars : List Char, chars.map lowerChar = chars →
    (chars.map foldChar = start.map foldChar ∧ (ofChars chars).length = (ofChars start).length ↔
      chars = start.map lowerChar)

/-- What is to be offered for some typed characters: what is missing to each name that goes on behind their
lowercase form, in the order of the names. With them in front each is a name of the set. -/
structure Completes (set : NameSet) (start : List Char) (answer : List Text × Nat) : Prop where
  missing : answer.1 =
    (set.names.filter fun name => (ofChars start).lower.isPrefixOf name && name ≠ (ofChars start).lower).map
      fun name => name.drop (ofChars start).lower.length
  named : ∀ candidate ∈ answer.1, set.contains (ofChars start ++ candidate) = true
  count : answer.2 = if answer.1 = [] then 0 else start.length

theorem chars_of_prefix {chars : List Char} {rest : Text}
    (joined : ofChars (start.map lowerChar) ++ rest = ofChars chars) :
    chars = start.map lowerChar ++ rest.chars ∧ rest = ofChars rest.chars := by
  have decoded := congrArg Text.chars joined
  rw [chars_ofChars_append, chars_ofChars] at decoded
  refine ⟨decoded.symm, ?_⟩
  rw [← decoded, ofChars_append] at joined
  exact List.append_cancel_left joined

/-- Of the names of a set, steady text is completed to those that its lowercase form begins. -/
theorem completion_of_steady (written : Utf8.replacement ∉ start) (steady : Steady start) {name : Text}
    (member : name ∈ (NameSet.ofNames words).names) :
    completion? (ofChars start) name =
      if ((ofChars start).lower.isPrefixOf name && name ≠ (ofChars start).lower) = true then
        some (name.drop (ofChars start).lower.length)
      else none := by
  obtain ⟨chars, lowered, rfl⟩ := NameSet.exists_chars member
  rw [lower_ofChars]
  split
  next passed =>
    rw [Bool.and_eq_true, List.isPrefixOf_iff_prefix, decide_eq_true_eq] at passed
    obtain ⟨⟨rest, joined⟩, longer⟩ := passed
    obtain ⟨split, bytes⟩ := chars_of_prefix joined
    obtain ⟨same, length⟩ := (steady _ (map_lowerChar_self start)).mpr rfl
    refine (completion_ofChars written chars _).mpr ⟨_, Text.chars rest, split, ?_, same, length, ?_⟩
    · intro nothing
      rw [nothing, List.append_nil] at split
      exact longer (congrArg ofChars split)
    · rw [← joined, List.drop_left]
      exact bytes
  next failed =>
    refine Option.eq_none_iff_forall_ne_some.mpr fun candidate offered => failed ?_
    obtain ⟨front, behind, rfl, nonempty, same, length, -⟩ := (completion_ofChars written chars _).mp offered
    rw [List.map_append] at lowered
    obtain rfl := (steady front (List.append_inj_left lowered (List.length_map _))).mp ⟨same, length⟩
    rw [Bool.and_eq_true, List.isPrefixOf_iff_prefix, decide_eq_true_eq, ofChars_append]
    refine ⟨List.prefix_append _ _, fun nothing => nonempty ?_⟩
    have decoded := congrArg Text.chars (List.append_right_eq_self.mp nothing)
    rw [chars_ofChars] at decoded
    exact decoded

theorem complete_append {front : List Char} (stops : ∀ char ∈ front.getLast?, separates char = true)
    (runs : ∀ char ∈ start, separates char = false) (nonempty : start ≠ []) (set : NameSet) :
    (complete set (front ++ start)).1 = set.names.filterMap (completion? (ofChars start)) ∧
      (complete set (front ++ start)).2 =
        if (complete set (front ++ start)).1 = [] then 0 else start.length := by
  unfold complete
  rw [typed_append stops runs]
  simp only [if_neg nonempty, List.isEmpty_iff, and_self]

theorem completes_of_steady {front : List Char} (stops : ∀ char ∈ front.getLast?, separates char = true)
    (runs : ∀ char ∈ start, separates char = false) (nonempty : start ≠ [])
    (written : Utf8.replacement ∉ start) (steady : Steady start) (words : List Text) :
    Completes (.ofNames words) start (complete (.ofNames words) (front ++ start)) := by
  obtain ⟨found, count⟩ := complete_append stops runs nonempty (.ofNames words)
  have missing : (complete (.ofNames words) (front ++ start)).1 =
      ((NameSet.ofNames words).names.filter fun name =>
        (ofChars start).lower.isPrefixOf name && name ≠ (ofChars start).lower).map
        fun name => name.drop (ofChars start).lower.length := by
    rw [found, ← List.filterMap_eq_map, List.filterMap_filter]
    exact List.filterMap_congr fun name member => completion_of_steady written steady member
  refine ⟨missing, fun candidate member => ?_, count⟩
  rw [missing] at member
  obtain ⟨name, inside, rfl⟩ := List.mem_map.mp member
  obtain ⟨listed, passed⟩ := List.mem_filter.mp inside
  rw [Bool.and_eq_true, List.isPrefixOf_iff_prefix] at passed
  obtain ⟨⟨rest, joined⟩, -⟩ := passed
  obtain ⟨chars, lowered, rfl⟩ := NameSet.exists_chars listed
  rw [lower_ofChars] at joined ⊢
  obtain ⟨split, bytes⟩ := chars_of_prefix joined
  rw [split, List.map_append, map_lowerChar_self] at lowered
  rw [← joined, List.drop_left, NameSet.contains_iff, bytes, ← ofChars_append, lower_ofChars,
    List.map_append, List.append_cancel_left lowered, ← split]
  exact listed

theorem mem_names_single {chars : List Char} (lowered : chars.map lowerChar = chars) {name : Text} :
    name ∈ (NameSet.ofNames [ofChars (chars ++ ['a'])]).names ↔ name = ofChars (chars ++ ['a']) := by
  have itself : (ofChars (chars ++ ['a'])).lower = ofChars (chars ++ ['a']) := by
    rw [lower_ofChars, List.map_append, lowered]
    rfl
  simp only [NameSet.mem_names, List.mem_singleton, exists_eq_left, itself]
  exact eq_comm

/-- Text that is not steady is completed in the wrong way, already with one name in the set. -/
theorem steady_of_completes {front : List Char} (stops : ∀ char ∈ front.getLast?, separates char = true)
    (runs : ∀ char ∈ start, separates char = false) (nonempty : start ≠ [])
    (written : Utf8.replacement ∉ start)
    (completes : ∀ words,
      Completes (.ofNames words) start (complete (.ofNames words) (front ++ start))) :
    Steady start := by
  intro chars lowered
  have offered := congrArg (ofChars ['a'] ∈ ·) (completes [ofChars (chars ++ ['a'])]).missing
  simp only [(complete_append stops runs nonempty _).1, lower_ofChars, List.mem_filterMap, List.mem_map,
    List.mem_filter, mem_names_single lowered, and_assoc, exists_eq_left, Bool.and_eq_true,
    List.isPrefixOf_iff_prefix, decide_eq_true_eq, completion_ofChars written] at offered
  constructor
  · rintro ⟨same, length⟩
    have front : ∃ front behind, chars ++ ['a'] = front ++ behind ∧ behind ≠ [] ∧
        front.map foldChar = start.map foldChar ∧
          (ofChars front).length = (ofChars start).length ∧ ofChars ['a'] = ofChars behind :=
      ⟨chars, ['a'], rfl, List.cons_ne_nil _ _, same, length, rfl⟩
    obtain ⟨⟨rest, joined⟩, -, dropped⟩ := offered.mp front
    rw [← joined, List.drop_left] at dropped
    rw [dropped, ofChars_append] at joined
    have decoded := congrArg Text.chars (List.append_cancel_right joined)
    rw [chars_ofChars, chars_ofChars] at decoded
    exact decoded.symm
  · rintro rfl
    have extended : ofChars (start.map lowerChar ++ ['a']) ≠ ofChars (start.map lowerChar) := by
      rw [ofChars_append]
      exact fun same => List.cons_ne_nil _ _ (List.append_right_eq_self.mp same)
    obtain ⟨front, behind, split, -, same, length, -⟩ := offered.mpr
      ⟨ofChars_append _ _ ▸ List.prefix_append _ _, extended, by rw [ofChars_append, List.drop_left]⟩
    have count := congrArg List.length same
    rw [List.length_map, List.length_map] at count
    obtain rfl := List.append_inj_left split ((List.length_map _).trans count.symm)
    exact ⟨same, length⟩

theorem steady_of_ascii (ascii : ∀ char ∈ start, char.toNat < 0x80) : Steady start := by
  have fold_eq {chars : List Char} (ascii : ∀ char ∈ chars, char.toNat < 0x80) :
      chars.map foldChar = chars.map lowerChar :=
    List.map_congr_left fun char member => foldChar_of_ascii (ascii char member)
  intro chars lowered
  constructor
  · rintro ⟨same, length⟩
    have count := congrArg List.length same
    rw [List.length_map, List.length_map] at count
    rw [length_ofChars_eq.mpr ascii, ← count, length_ofChars_eq] at length
    rw [← lowered, ← fold_eq length, same, fold_eq ascii]
  · rintro rfl
    have small : ∀ char ∈ start.map lowerChar, char.toNat < 0x80 := by
      intro char member
      obtain ⟨original, inside, rfl⟩ := List.mem_map.mp member
      rw [lowerChar, if_pos (ascii original inside)]
      exact toNat_lowerAscii (ascii original inside)
    refine ⟨by rw [fold_eq small, lowered, fold_eq ascii], ?_⟩
    rw [length_ofChars_eq.mpr small, length_ofChars_eq.mpr ascii, List.length_map]

/-- Every set of names is completed rightly behind what is typed before the cursor if and only if that is
steady, as everything in ASCII is. The names of a set come in the order of their bytes, and are the lowercase
forms of what the set was made of. -/
theorem completions_right_iff_steady {line front start : List Char} {position : Nat}
    (split : line.take position = front ++ start)
    (stops : ∀ char ∈ front.getLast?, separates char = true)
    (runs : ∀ char ∈ start, separates char = false) (nonempty : start ≠ [])
    (written : Utf8.replacement ∉ start) :
    ((∀ words, Completes (.ofNames words) start
        (complete (.ofNames words) (line.take position))) ↔ Steady start) ∧
      ((∀ char ∈ start, char.toNat < 0x80) → Steady start) ∧
      ∀ words : List Text, (NameSet.ofNames words).names.Pairwise (· < ·) ∧
        ∀ name, name ∈ (NameSet.ofNames words).names ↔ ∃ word ∈ words, word.lower = name := by
  rw [split]
  refine ⟨⟨steady_of_completes stops runs nonempty written, ?_⟩, steady_of_ascii, fun words => ⟨?_, ?_⟩⟩
  · exact fun steady => completes_of_steady stops runs nonempty written steady
  · exact List.pairwise_map.mpr (NameSet.ofNames words).members.increasing
  · exact fun name => NameSet.mem_names

def writers : List Text := ["Write-Host", "write-output", "Get-Host"].map Text.ofString

theorem writers_completed :
    Completes (.ofNames writers) ['w', 'R', 'i'] (complete (.ofNames writers) ("a|wRite".toList.take 5)) ∧
    complete (.ofNames writers) ("a|wRite".toList.take 5) =
      (["te-host", "te-output"].map Text.ofString, 3) := by
  have split : "a|wRite".toList.take 5 = ['a', '|'] ++ ['w', 'R', 'i'] := by decide +kernel
  have stops : ∀ char ∈ ['a', '|'].getLast?, separates char = true := by
    intro char member
    cases member
    decide
  have runs : ∀ char ∈ ['w', 'R', 'i'], separates char = false := by
    simp only [List.forall_mem_cons]
    exact ⟨by decide, by decide, by decide, List.forall_mem_nil _⟩
  have ascii : ∀ char ∈ ['w', 'R', 'i'], char.toNat < 0x80 := by
    simp only [List.forall_mem_cons]
    exact ⟨by decide, by decide, by decide, List.forall_mem_nil _⟩
  obtain ⟨right, steady, -⟩ := completions_right_iff_steady split stops runs (by decide) (by decide)
  exact ⟨right.mpr (steady ascii) writers, by decide +kernel⟩

/-- The lowercase form of the Kelvin sign is a letter of one byte, and the sign has three. So the name is cut
behind three letters, and not offered. -/
theorem kelvin_not_completed :
    ¬ Completes (.ofNames [Text.ofString "kill"]) ['\u212A']
      (complete (.ofNames [Text.ofString "kill"]) ("\u212A".toList.take 1)) := by
  intro right
  have missing := right.missing
  revert missing
  decide +kernel

end Prompt

end ScopeLint
