import ScopeLint.Proofs.Tree.Bounds

/-!
What strings can hold. Whatever text is read, the parts of its strings are words and groups in round or
curly brackets, at every depth.
-/

namespace ScopeLint.Tree

/-- The lexemes that a string can hold. -/
inductive IsPart : Tree → Prop
  | word {span : Span} {spacing : Spacing} : IsPart (.word span spacing)
  | group {delimiter : Delimiter} {span : Span} {body : List Tree} (round : delimiter ≠ .bracket) :
      IsPart (.group delimiter span body)

mutual

/-- A lexeme whose strings, at every depth, hold only what strings can hold. -/
def Shaped : Tree → Prop
  | string _ parts => AllShaped parts ∧ ∀ part ∈ parts, IsPart part
  | group _ _ body => AllShaped body
  | _ => True

def AllShaped : List Tree → Prop
  | [] => True
  | tree :: rest => tree.Shaped ∧ AllShaped rest

end

theorem AllShaped.mem {trees : List Tree} (shaped : AllShaped trees) : ∀ tree ∈ trees, tree.Shaped := by
  induction trees with
  | nil => simp
  | cons first rest induction =>
      rw [AllShaped] at shaped
      exact List.forall_mem_cons.mpr ⟨shaped.1, induction shaped.2⟩

theorem shaped_withSpacing (spacing : Spacing) (tree : Tree) :
    (tree.withSpacing spacing).Shaped ↔ tree.Shaped := by
  cases tree <;> simp [withSpacing, Shaped]

theorem shaped_link {tree : Tree} {trees : List Tree} (shaped : tree.Shaped) (others : AllShaped trees) :
    AllShaped (tree.link trees) := by
  obtain ⟨spacing, same, -⟩ := exists_link tree trees
  rw [same, AllShaped]
  exact ⟨(shaped_withSpacing spacing tree).mpr shaped, others⟩

variable {stop : Location} {fuel : Nat}

structure ReadersShaped (stop : Location) (fuel : Nat) : Prop where
  trees : ∀ glyphs trees left, readTrees stop fuel glyphs = .ok (trees, left) → AllShaped trees
  strings : ∀ form glyphs parts last left,
    readString stop fuel form glyphs = .ok (parts, last, left) →
      AllShaped parts ∧ ∀ part ∈ parts, IsPart part

theorem ReadersShaped.linked (shaped : ReadersShaped stop fuel) {tree : Tree} {glyphs : List Glyph}
    {out : List Tree × List Glyph}
    (success : (do
      let (trees, rest) ← readTrees stop fuel glyphs
      return (tree.link trees, rest)) = .ok out) (first : tree.Shaped) : AllShaped out.1 := by
  obtain ⟨⟨trees, left⟩, read, success⟩ := Except.exists_of_bind success
  obtain rfl := Except.ok.inj success
  exact shaped_link first (shaped.trees _ _ _ read)

theorem ReadersShaped.trees_step (shaped : ReadersShaped stop fuel) (glyphs : List Glyph)
    (out : List Tree × List Glyph) (success : readTrees stop (fuel + 1) glyphs = .ok out) :
    AllShaped out.1 := by
  cases glyphs with
  | nil =>
      rw [readTrees_nil] at success
      obtain rfl := Except.ok.inj success
      trivial
  | cons glyph rest =>
      cases begins glyph rest with
      | closing delimiter lead =>
          rw [readTrees_closing lead] at success
          obtain rfl := Except.ok.inj success
          trivial
      | opening delimiter lead =>
          rw [readTrees_opening lead] at success
          obtain ⟨⟨body, ending⟩, read, success⟩ := Except.exists_of_bind success
          obtain ⟨⟨closed, after⟩, close, success⟩ := Except.exists_of_bind success
          obtain ⟨last, -, -, rfl⟩ := exists_of_closeGroup close
          exact shaped.linked success (shaped.trees _ _ _ read)
      | line lead =>
          rw [readTrees_line lead] at success
          exact shaped.trees _ _ _ success
      | @block next behind angle hash =>
          rw [readTrees_block angle hash] at success
          split at success
          next => cases success
          next => exact shaped.trees _ _ _ success
      | blank lead =>
          rw [readTrees_blank lead] at success
          exact shaped.trees _ _ _ success
      | @here next behind lead quoted =>
          rw [readTrees_here lead quoted] at success
          obtain ⟨⟨parts, last, after⟩, read, success⟩ := Except.exists_of_bind success
          exact shaped.linked success (shaped.strings _ _ _ _ _ read)
      | quote lead =>
          rw [readTrees_quote lead] at success
          obtain ⟨⟨parts, last, after⟩, read, success⟩ := Except.exists_of_bind success
          exact shaped.linked success (shaped.strings _ _ _ _ _ read)
      | word lead =>
          rw [readTrees_word lead] at success
          exact shaped.linked success trivial
      | number lead =>
          rw [readTrees_number lead] at success
          exact shaped.linked success trivial
      | symbol alone =>
          rw [readTrees_symbol alone] at success
          exact shaped.linked success trivial

theorem ReadersShaped.cons (shaped : ReadersShaped stop fuel) {form : Quotation} {part : Tree}
    {glyphs : List Glyph} {out : List Tree × Location × List Glyph}
    (success : (do
      let (parts, last, rest) ← readString stop fuel form glyphs
      return (part :: parts, last, rest)) = .ok out) (first : part.Shaped) (fits : IsPart part) :
    AllShaped out.1 ∧ ∀ part ∈ out.1, IsPart part := by
  obtain ⟨⟨parts, last, left⟩, read, success⟩ := Except.exists_of_bind success
  obtain rfl := Except.ok.inj success
  obtain ⟨others, each⟩ := shaped.strings _ _ _ _ _ read
  exact ⟨⟨first, others⟩, List.forall_mem_cons.mpr ⟨fits, each⟩⟩

theorem ReadersShaped.strings_step (shaped : ReadersShaped stop fuel) (form : Quotation)
    (glyphs : List Glyph) (out : List Tree × Location × List Glyph)
    (success : readString stop (fuel + 1) form glyphs = .ok out) :
    AllShaped out.1 ∧ ∀ part ∈ out.1, IsPart part := by
  cases glyphs with
  | nil =>
      rw [readString_nil] at success
      cases success
  | cons glyph rest =>
      cases goes form glyph rest with
      | escape backtick double =>
          rw [readString_escape backtick double] at success
          exact shaped.strings _ _ _ _ _ success
      | close plain quoted closes =>
          rw [readString_close plain quoted closes] at success
          obtain rfl := Except.ok.inj success
          exact ⟨trivial, by simp⟩
      | stay plain quoted stays =>
          rw [readString_stay plain quoted stays] at success
          exact shaped.strings _ _ _ _ _ success
      | @group next behind delimiter dollar double lead round =>
          rw [readString_group dollar double lead round] at success
          obtain ⟨⟨body, ending⟩, read, success⟩ := Except.exists_of_bind success
          obtain ⟨⟨closed, after⟩, close, success⟩ := Except.exists_of_bind success
          obtain ⟨last, -, -, rfl⟩ := exists_of_closeGroup close
          exact shaped.cons success (shaped.trees _ _ _ read) (.group round)
      | @word next behind dollar double lead =>
          rw [readString_word dollar double lead] at success
          exact shaped.cons success trivial .word
      | pass plain unquoted bare =>
          rw [readString_pass plain unquoted bare] at success
          exact shaped.strings _ _ _ _ _ success

theorem readers_shaped (stop : Location) (fuel : Nat) : ReadersShaped stop fuel := by
  induction fuel with
  | zero =>
      constructor
      · intro glyphs trees left success
        rw [readTrees] at success
        obtain ⟨rfl, -⟩ := Prod.mk.inj (Except.ok.inj success)
        trivial
      · intro form glyphs parts last left success
        rw [readString] at success
        cases success
  | succ fuel induction =>
      exact ⟨fun glyphs trees left success => induction.trees_step glyphs _ success,
        fun form glyphs parts last left success => induction.strings_step form glyphs _ success⟩

theorem shaped_of_read {source : Text} {trees : List Tree} (accepted : read source = .ok trees) :
    AllShaped trees :=
  (readers_shaped _ _).trees _ _ _ (readTrees_of_read accepted)

end ScopeLint.Tree
