import ScopeLint.File.Path
import ScopeLint.File.Tree
import ScopeLint.Proofs.Text.Split

/-!
Clean absolute paths as lists of names. Every operation on paths is described by what it does to the
names: a path with given names is taken apart, joined, shortened and compared name by name.
-/

namespace ScopeLint.Path

structure IsName (name : Text) : Prop where
  nonempty : name ≠ []
  whole : slash ∉ name
  notHere : name ≠ Text.ofString "."
  notUp : name ≠ Text.ofString ".."

instance IsName.decidable (name : Text) : Decidable (IsName name) :=
  decidable_of_iff
    (name ≠ [] ∧ slash ∉ name ∧ name ≠ Text.ofString "." ∧ name ≠ Text.ofString "..")
    ⟨fun ⟨nonempty, whole, notHere, notUp⟩ => ⟨nonempty, whole, notHere, notUp⟩,
      fun ⟨nonempty, whole, notHere, notUp⟩ => ⟨nonempty, whole, notHere, notUp⟩⟩

def AreNames (names : List Text) : Prop := ∀ name ∈ names, IsName name

/-- Each name behind a slash: the path with these names, empty for the root. -/
def below (names : List Text) : Text := names.flatMap fun name => slash :: name

variable {front rest names more : List Text} {name path : Text}

theorem AreNames.whole (all : AreNames names) : ∀ name ∈ names, slash ∉ name :=
  fun name member => (all name member).whole

theorem areNames_append : AreNames (names ++ more) ↔ AreNames names ∧ AreNames more :=
  List.forall_mem_append

theorem areNames_concat : AreNames (names ++ [name]) ↔ AreNames names ∧ IsName name := by
  rw [areNames_append]
  exact and_congr_right' List.forall_mem_singleton

theorem below_append (names more : List Text) : below (names ++ more) = below names ++ below more := by
  simp [below]

theorem below_concat (names : List Text) (name : Text) :
    below (names ++ [name]) = below names ++ slash :: name := by
  simp [below]

theorem slash_text : (Text.ofString "/" : Text) = [slash] := by decide

theorem splitOn_append_below (front : Text) (names : List Text)
    (whole : ∀ name ∈ names, slash ∉ name) :
    Text.splitOn slash (front ++ below names) = Text.splitOn slash front ++ names := by
  induction names generalizing front with
  | nil => simp [below]
  | cons name rest induction =>
      have own : Text.splitOn slash name = [name] := by
        rw [Text.splitOn_eq]
        exact List.splitOn_eq_singleton (whole name List.mem_cons_self)
      have later := induction (front ++ slash :: name) fun other member =>
        whole other (List.mem_cons_of_mem _ member)
      have shape : front ++ below (name :: rest) = front ++ slash :: name ++ below rest := by
        simp [below]
      rw [shape, later, Text.splitOn_eq, List.splitOn_append_cons_self, ← Text.splitOn_eq,
        ← Text.splitOn_eq, own, List.append_assoc]
      rfl

theorem splitOn_below (whole : ∀ name ∈ names, slash ∉ name) :
    Text.splitOn slash (below names) = [] :: names :=
  splitOn_append_below [] names whole

theorem slash_join (nonempty : names ≠ []) : slash :: Text.join "/" names = below names := by
  rw [slash_text]
  induction names with
  | nil => exact absurd rfl nonempty
  | cons name rest induction =>
      cases rest with
      | nil => simp [Text.join_eq, below]
      | cons next rest =>
          have later := induction (List.cons_ne_nil _ _)
          rw [Text.join_eq, List.intercalate_cons_cons, ← Text.join_eq, List.append_assoc,
            List.singleton_append, later]
          simp [below]

theorem splitOn_join (whole : ∀ name ∈ names, slash ∉ name) (nonempty : names ≠ []) :
    Text.splitOn slash (Text.join "/" names) = names := by
  rw [Text.splitOn_eq, Text.join_eq, slash_text]
  exact List.splitOn_intercalate slash whole nonempty

theorem join_splitOn (path : Text) : Text.join "/" (path.splitOn slash) = path := by
  rw [Text.splitOn_eq, Text.join_eq, slash_text, List.intercalate_splitOn]

theorem ofNames_eq (nonempty : names ≠ []) : ofNames true names = below names := by
  rw [← slash_join nonempty, ofNames, if_pos rfl]
  rfl

theorem isAbsolute_iff : isAbsolute path = true ↔ [slash] <+: path := by
  rw [isAbsolute, slash_text]
  exact List.isPrefixOf_iff_prefix

theorem isAbsolute_append (rooted : isAbsolute path = true) (rest : Text) :
    isAbsolute (path ++ rest) = true := by
  rw [isAbsolute_iff] at rooted ⊢
  exact rooted.trans (List.prefix_append path rest)

theorem isAbsolute_ofNames (names : List Text) : isAbsolute (ofNames true names) = true :=
  isAbsolute_iff.mpr (List.prefix_append [slash] (Text.join "/" names))

theorem ofNames_ne_nil (names : List Text) : ofNames true names ≠ [] :=
  List.cons_ne_nil slash (Text.join "/" names)

theorem filter_names (all : AreNames names) :
    names.filter (fun name => name ≠ [] && name ≠ Text.ofString ".") = names := by
  apply List.filter_eq_self.mpr
  intro name member
  simp [(all name member).nonempty, (all name member).notHere]

theorem names_append (front : Text) (all : AreNames more) :
    Path.names (front ++ below more) = Path.names front ++ more := by
  rw [Path.names, splitOn_append_below front more all.whole,
    List.filter_append, filter_names all]
  rfl

theorem names_below (all : AreNames names) : Path.names (below names) = names :=
  names_append [] all

theorem names_ofNames (all : AreNames names) : Path.names (ofNames true names) = names := by
  rcases eq_or_ne names [] with rfl | nonempty
  · decide
  · rw [ofNames_eq nonempty, names_below all]

theorem ofNames_eq_root (all : AreNames names) :
    ofNames true names = Text.ofString "/" ↔ names = [] := by
  constructor
  · intro same
    have equal := congrArg Path.names same
    rw [names_ofNames all] at equal
    exact equal.trans (by decide)
  · rintro rfl
    decide

theorem settle_plain (absolute : Bool) (front : List Text) (all : AreNames names) :
    settle absolute front names = front.reverse ++ names := by
  induction names generalizing front with
  | nil => simp [settle]
  | cons name rest induction =>
      obtain ⟨own, others⟩ := List.forall_mem_cons.mp all
      simp [settle, own.notUp, induction (name :: front) others]

theorem clean_of_names (absolute : isAbsolute path = true) (same : Path.names path = names)
    (all : AreNames names) : clean path = ofNames true names := by
  rw [clean, cleanNames, absolute, same, settle_plain true [] all]
  rfl

theorem clean_ofNames (all : AreNames names) :
    clean (ofNames true names) = ofNames true names :=
  clean_of_names (isAbsolute_ofNames names) (names_ofNames all) all

theorem areNames_settle (all : AreNames front)
    (given : ∀ name ∈ rest, name ≠ [] ∧ slash ∉ name ∧ name ≠ Text.ofString ".") :
    AreNames (settle true front rest) := by
  induction rest generalizing front with
  | nil =>
      intro name member
      exact all name (List.mem_reverse.mp member)
  | cons next rest induction =>
      have later := fun name member => given name (List.mem_cons_of_mem _ member)
      unfold settle
      split
      next up =>
        cases front with
        | nil => exact induction all later
        | cons last before =>
            obtain ⟨own, others⟩ := List.forall_mem_cons.mp all
            simp only [own.notUp, if_false]
            exact induction others later
      next plain =>
        obtain ⟨nonempty, whole, notHere⟩ := given next List.mem_cons_self
        apply induction _ later
        exact List.forall_mem_cons.mpr ⟨⟨nonempty, whole, notHere, plain⟩, all⟩

/-- The clean form of an absolute path consists of names. -/
theorem exists_clean (absolute : isAbsolute path = true) :
    ∃ names, AreNames names ∧ clean path = ofNames true names := by
  refine ⟨cleanNames path, ?_, by rw [clean, absolute]⟩
  rw [cleanNames, absolute]
  apply areNames_settle (List.forall_mem_nil _)
  intro name member
  obtain ⟨listed, kept⟩ := List.mem_filter.mp member
  have whole : slash ∉ name :=
    fun inside => (Text.mem_of_splitOn slash path name listed _ inside).2 rfl
  simp only [Bool.and_eq_true, decide_eq_true_eq] at kept
  exact ⟨kept.1, whole, kept.2⟩

theorem exists_absolute {working : Text} (rooted : isAbsolute working = true) (path : Text) :
    ∃ names, AreNames names ∧ absolute working path = ofNames true names := by
  rw [absolute]
  split
  next rooted => exact exists_clean rooted
  next =>
    have nonempty : working ≠ [] := by
      rintro rfl
      cases rooted
    rw [join, if_neg nonempty]
    split
    next => exact exists_clean rooted
    next => exact exists_clean (isAbsolute_append (isAbsolute_append rooted _) _)

theorem join_ofNames (all : AreNames names) (inner : AreNames more) :
    join (ofNames true names) (Text.join "/" more) = ofNames true (names ++ more) := by
  rw [join, if_neg (ofNames_ne_nil names)]
  rcases eq_or_ne more [] with rfl | nonempty
  · have joined : Text.join "/" [] = [] := rfl
    rw [if_pos joined, clean_ofNames all, List.append_nil]
  · have rest : Text.join "/" more ≠ [] := by
      intro blank
      have split := splitOn_join inner.whole nonempty
      rw [blank] at split
      obtain rfl : [[]] = more := split
      exact (inner [] List.mem_cons_self).nonempty rfl
    have shape : ofNames true names ++ Text.ofString "/" ++ Text.join "/" more =
        ofNames true names ++ below more := by
      rw [← slash_join nonempty, List.append_assoc, slash_text]
      rfl
    rw [if_neg rest, shape]
    apply clean_of_names (isAbsolute_append (isAbsolute_ofNames names) _)
    · rw [names_append _ inner, names_ofNames all]
    · exact areNames_append.mpr ⟨all, inner⟩

theorem lastName_of_splitOn (same : path.splitOn slash = front ++ [name]) : lastName path = name := by
  rw [lastName, same]
  simp

theorem suffix_of_splitOn (same : path.splitOn slash = front ++ [name]) : name <:+ path := by
  have whole : slash :: path = below front ++ slash :: name := by
    rw [← below_concat, ← slash_join (by simp), ← same, join_splitOn]
  cases lead : below front with
  | nil =>
      rw [lead] at whole
      exact (List.cons.inj whole).2 ▸ List.suffix_refl _
  | cons first rest =>
      rw [lead] at whole
      exact ⟨rest ++ [slash], by rw [(List.cons.inj whole).2]; simp⟩

theorem splitOn_ofNames (all : AreNames names) (last : IsName name) :
    Text.splitOn slash (ofNames true (names ++ [name])) = ([] :: names) ++ [name] := by
  rw [ofNames_eq (by simp), splitOn_below (areNames_concat.mpr ⟨all, last⟩).whole]
  rfl

theorem directory_ofNames (all : AreNames names) (last : IsName name) :
    directory (ofNames true (names ++ [name])) = ofNames true names := by
  have front : (ofNames true (names ++ [name])).take
      ((ofNames true (names ++ [name])).length - name.length) = below names ++ [slash] := by
    rw [ofNames_eq (by simp), below_concat, ← List.singleton_append, ← List.append_assoc,
      List.length_append, Nat.add_sub_cancel, List.take_left]
  have absolute : isAbsolute (below names ++ [slash]) = true := by
    rw [isAbsolute_iff]
    cases names with
    | nil => exact List.prefix_refl _
    | cons first rest => exact ⟨first ++ below rest ++ [slash], by simp [below]⟩
  have given : Path.names (below names ++ [slash]) = names := by
    rw [Path.names, Text.splitOn_eq, List.splitOn_append_cons_self, ← Text.splitOn_eq,
      splitOn_below all.whole, List.cons_append, List.filter_cons_of_neg (by simp), List.filter_append,
      filter_names all]
    simp
  rw [directory, lastName_of_splitOn (splitOn_ofNames all last), front]
  exact clean_of_names absolute given all

theorem base_of_splitOn (same : path.splitOn slash = front ++ [name]) (last : IsName name) :
    base path = name := by
  obtain ⟨before, rfl⟩ := suffix_of_splitOn same
  have nonempty : before ++ name ≠ [] := fun empty => last.nonempty (List.append_eq_nil_iff.mp empty).2
  have kept : ((before ++ name).reverse.dropWhile (· = slash)).reverse = before ++ name := by
    obtain ⟨init, final, rfl⟩ := (List.eq_nil_or_concat name).resolve_left last.nonempty
    have other : final ≠ slash := by
      rintro rfl
      exact last.whole (by simp)
    simp [other]
  simp only [base, if_neg nonempty, kept, lastName_of_splitOn same]

theorem extension_of_splitOn (same : path.splitOn slash = front ++ [name]) (last : IsName name) :
    extension name = extension path := by
  have own : Text.splitOn slash name = [] ++ [name] := by
    rw [Text.splitOn_eq]
    exact List.splitOn_eq_singleton last.whole
  rw [extension, extension, lastName_of_splitOn own, lastName_of_splitOn same]

theorem exists_base (all : AreNames names) (inner : AreNames more)
    (nonempty : more ≠ []) :
    ∃ last, IsName last ∧ base (ofNames true (names ++ more)) = last ∧
      base (Text.join "/" more) = last ∧ extension last = extension (Text.join "/" more) := by
  have split := splitOn_join inner.whole nonempty
  obtain ⟨init, last, rfl⟩ := (List.eq_nil_or_concat more).resolve_left nonempty
  rw [List.concat_eq_append] at inner split ⊢
  obtain ⟨front, own⟩ := areNames_concat.mp inner
  have others : AreNames (names ++ init) := areNames_append.mpr ⟨all, front⟩
  refine ⟨last, own, ?_, base_of_splitOn split own, extension_of_splitOn split own⟩
  rw [← List.append_assoc]
  exact base_of_splitOn (splitOn_ofNames others own) own

theorem dropCommon_append (names more : List Text) : dropCommon names (names ++ more) = ([], more) := by
  induction names with
  | nil => cases more <;> rfl
  | cons name rest induction => simp [dropCommon, induction]

theorem relative_ofNames (all : AreNames names) (inner : AreNames more)
    (nonempty : more ≠ []) :
    relative? (ofNames true names) (ofNames true (names ++ more)) = some (Text.join "/" more) := by
  have both : AreNames (names ++ more) := areNames_append.mpr ⟨all, inner⟩
  have distinct : ofNames true names ≠ ofNames true (names ++ more) := by
    intro same
    have equal := congrArg Path.names same
    rw [names_ofNames all, names_ofNames both] at equal
    exact nonempty (List.self_eq_append_right.mp equal)
  have target : targetNames (ofNames true (names ++ more)) = names ++ more := by
    rw [targetNames, if_neg, names_ofNames both]
    intro same
    have absolute := isAbsolute_ofNames (names ++ more)
    rw [same] at absolute
    cases absolute
  simp only [relative?, clean_ofNames all, clean_ofNames both, if_neg distinct, isAbsolute_ofNames,
    names_ofNames all, target, dropCommon_append]
  simp

end ScopeLint.Path
