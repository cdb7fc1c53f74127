import ScopeLint.Proofs.Text.Split
import ScopeLint.Script.Line

/-!
The lines of a text where they stand in it. A line starts the text or follows a line feed, and behind
it comes the end of the text or a line break, with its carriage return if it has one.
-/

namespace ScopeLint.Line

open Text

variable {source : Text}

/-- A line between what is in front of it and what is behind it in a text. -/
structure Stands (source front behind : Text) (line : Line) : Prop where
  split : source = front ++ (line.text ++ behind)
  offset : line.offset = front.length
  number : line.number = front.count lineFeed + 1
  fresh : ∀ last ∈ front.getLast?, last = lineFeed
  ends : ∀ next ∈ behind.head?, next = lineFeed ∨ next = carriageReturn
  broken : behind.head? = some lineFeed → ¬ [carriageReturn] <:+ line.text
  inLine : lineFeed ∉ line.text

theorem stands_first {front text rest : Text} (split : source = front ++ (text ++ rest))
    (fresh : ∀ last ∈ front.getLast?, last = lineFeed) (inLine : lineFeed ∉ text)
    (ends : ∀ next ∈ rest.head?, next = lineFeed) :
    ∃ behind, Stands source front behind
      ⟨front.count lineFeed + 1, front.length, text.dropEnding [carriageReturn]⟩ := by
  obtain ⟨ending, cut, returns⟩ := exists_ending text
  refine ⟨ending ++ rest, ?_, rfl, rfl, fresh, ?_, ?_, ?_⟩
  · rw [split, ← List.append_assoc (text.dropEnding _), ← cut]
  · intro next first
    rcases returns with rfl | ⟨rfl, -⟩
    · exact .inr (Option.some.inj first).symm
    · exact .inl (ends next first)
  · intro feed
    rcases returns with rfl | ⟨rfl, plain⟩
    · cases feed
    · rw [List.append_nil] at cut
      rwa [← cut]
  · intro member
    apply inLine
    rw [cut]
    exact List.mem_append_left _ member

theorem stands_numbered {front : Text} {texts : List Text}
    (inLine : ∀ text ∈ texts, lineFeed ∉ text) (fresh : ∀ last ∈ front.getLast?, last = lineFeed)
    (split : source = front ++ Text.join [lineFeed] texts) :
    ∀ line ∈ numbered (front.count lineFeed + 1) front.length texts,
      ∃ front behind, Stands source front behind line := by
  induction texts generalizing front with
  | nil =>
      intro line member
      cases member
  | cons text rest induction =>
      have inside := inLine text List.mem_cons_self
      intro line member
      rw [numbered] at member
      cases rest with
      | nil =>
          obtain rfl := List.mem_singleton.mp member
          have single : source = front ++ (text ++ []) := by
            rw [split, join_eq, List.intercalate_singleton, List.append_nil]
          exact ⟨front, stands_first single fresh inside nofun⟩
      | cons next rest =>
          have cut : source = front ++ (text ++ ([lineFeed] ++ Text.join [lineFeed] (next :: rest))) := by
            rw [split, join_eq, join_eq, List.intercalate_cons_cons, List.append_assoc]
          rcases List.mem_cons.mp member with rfl | member
          · refine ⟨front, stands_first cut fresh inside ?_⟩
            intro first head
            exact (Option.some.inj head).symm
          · have counted : (front ++ (text ++ [lineFeed])).count lineFeed =
                front.count lineFeed + 1 := by
              simp [List.count_eq_zero_of_not_mem inside]
            have length : (front ++ (text ++ [lineFeed])).length = front.length + text.length + 1 := by
              simp [Nat.add_assoc]
            rw [← counted, ← length] at member
            apply induction (fun text inner => inLine text (List.mem_cons_of_mem _ inner)) _ _ line member
            · intro last ends
              simpa [eq_comm] using ends
            · rw [cut]
              simp

theorem exists_stands (source : Text) :
    ∀ line ∈ ofSource source, ∃ front behind, Stands source front behind line := by
  have split : source = [] ++ Text.join [lineFeed] (Text.splitOn lineFeed source) := by
    rw [List.nil_append, join_eq, splitOn_eq, List.intercalate_splitOn]
  have inLine : ∀ text ∈ Text.splitOn lineFeed source, lineFeed ∉ text :=
    fun text member inside => (mem_of_splitOn lineFeed source text member _ inside).2 rfl
  exact stands_numbered inLine (by simp) split

end ScopeLint.Line
