import ScopeLint.Proofs.Script.Occurrences
import ScopeLint.Proofs.Source.Pieces

/-!
How clean the names of a script are. The characters of a name are those of a word or a command, but the
name is cut out of the text by its place, and with it the carriage returns that stand between these
characters. They are the only thing a name can hold that does not belong to it.
-/

namespace ScopeLint

namespace Token

variable {source : Text} {start middle stop : Int}

def SpelledName (source : Text) (continues : Char → Bool) (start stop : Int) : Prop :=
  ∃ first rest, source.between start stop = first :: rest ∧ Tree.startsWord first = true ∧
    ∀ char ∈ rest, continues char = true

theorem SpelledName.append (named : SpelledName source continuesCommand start middle)
    (ordered : start ≤ middle) (more : SpelledCommand source middle stop) :
    SpelledName source continuesCommand start stop := by
  obtain ⟨first, rest, text, starts, continues⟩ := named
  have whole : Utf8.replacement ∉ source.between middle stop := by
    intro member
    exact absurd (more.2 _ member) (by decide +kernel)
  refine ⟨first, rest ++ source.between middle stop, ?_, starts, ?_⟩
  · rw [Text.between_append source ordered more.1 whole, text, List.cons_append]
  · exact List.forall_mem_append.mpr ⟨continues, more.2⟩

theorem spelled_spanThrough {last : Int} {span : Span} {first : Tree} {others behind : List Tree}
    (named : SpelledName source continuesCommand span.start.byte span.stop.byte)
    (ordered : span.start.byte ≤ span.stop.byte) (ends : span.stop = first.span.stop)
    (touching : Touching (first :: others)) (continued : ∀ tree ∈ others, continuesName tree = true)
    (level : Tree.Level source start last (first :: (others ++ behind))) :
    SpelledName source continuesCommand (spanThrough span others).start.byte
      (spanThrough span others).stop.byte := by
  -- On the lexemes of the run; `first` is the last one that the span has been drawn through.
  induction others generalizing span first start with
  | nil => exact named
  | cons next others induction =>
      obtain ⟨continues, continued⟩ := List.forall_mem_cons.mp continued
      obtain ⟨joined, touching⟩ := List.isChain_cons_cons.mp touching
      rw [Tree.Level] at level
      obtain ⟨-, -, -, -, meets, level⟩ := level
      obtain ⟨-, _, head, adjacent⟩ := meets.spaced.mp joined
      obtain rfl := Option.some.inj head
      have parts := level
      rw [List.cons_append, Tree.Level] at parts
      obtain ⟨-, width, -, covers, -, -⟩ := parts
      rw [← ends] at adjacent
      have spelled := spelled_of_covers covers (Int.le_of_lt width) continues
      rw [← adjacent] at spelled width
      exact induction (named.append ordered spelled) (Int.le_trans ordered (Int.le_of_lt width)) rfl
        touching continued level

/-- Commands and fields are spelled as such. -/
def Spells (source : Text) : Token → Prop
  | cmdlet span => SpelledName source continuesCommand span.start.byte span.stop.byte
  | field span => SpelledName source Tree.continuesWord span.start.byte span.stop.byte
  | _ => True

theorem spelledName_of_covers {span : Span} {spacing : Spacing}
    (covers : Tree.Covers source (.word span spacing)) :
    SpelledName source Tree.continuesWord span.start.byte span.stop.byte := by
  rw [Tree.Covers] at covers
  exact covers.text

theorem Forms.spells {run behind : List Tree} {token : Token} (forms : Forms source run token)
    (level : Tree.Level source start stop (run ++ behind)) : token.Spells source := by
  cases forms with
  | field =>
      rw [List.cons_append, Tree.Level] at level
      obtain ⟨-, -, -, covers, -, -⟩ := level
      exact spelledName_of_covers covers
  | @command span spacing others touching continued =>
      have parts := level
      rw [List.cons_append, Tree.Level] at parts
      obtain ⟨-, width, -, covers, -, -⟩ := parts
      obtain ⟨first, rest, text, starts, continues⟩ := spelledName_of_covers covers
      have word : SpelledName source continuesCommand span.start.byte span.stop.byte :=
        ⟨first, rest, text, starts, fun char member => continuesCommand_of_word (continues char member)⟩
      have spelled := spelled_spanThrough word (Int.le_of_lt width) rfl touching continued level
      unfold ofCommand
      dsimp only
      repeat' split
      all_goals first | exact spelled | trivial
  | _ => trivial

theorem spells_of_read {tokens : List Token} (accepted : read source = .ok tokens) :
    ∀ occurrence ∈ occurrences tokens, occurrence.token.Spells source :=
  formed_of_read ⟨Forms.spells, fun _ _ => trivial, fun _ _ _ _ _ => trivial⟩ accepted

end Token

section Places

variable {source : Text} {span : Span}

/-- A place in front of some of the glyphs of a text, or behind all of them. -/
def Location.Marks (source : Text) (place : Location) : Prop :=
  ∃ left, left <:+ source.glyphs ∧ place = source.placeOf left

def Text.marking (source : Text) : Respacing :=
  .itself source (Location.Marks source) fun left within => ⟨left, within, rfl⟩

theorem Span.In.slice_eq (inside : span.In source) :
    span.slice source = source.slice span.start.byte.toNat span.stop.byte.toNat := by
  obtain ⟨⟨start, ordered, stop⟩, -⟩ := inside
  rw [Span.slice, if_neg]
  simp only [Bool.or_eq_true, decide_eq_true_eq]
  omega

theorem Span.In.whole (inside : span.In source) (start : span.start.Marks source)
    (stop : span.stop.Marks source) :
    (span.slice source).pieces <:+: source.pieces ∧ Glyph.Whole (span.slice source).pieces := by
  have width := inside.filled
  obtain ⟨left, within, begins⟩ := start
  obtain ⟨behind, withinBehind, ends⟩ := stop
  rw [begins, ends] at width
  -- Glyphs that start later are left when the others have been passed.
  obtain ⟨passed, rfl⟩ : behind <:+ left := by
    rcases List.suffix_or_suffix_of_suffix within withinBehind with ⟨more, rfl⟩ | later
    · have back := Text.placeOf_le withinBehind
      omega
    · exact later
  have nonempty : passed ≠ [] := by
    rintro rfl
    exact absurd width (Int.lt_irrefl _)
  obtain ⟨outer, cut⟩ := within
  have remains := source.remains_glyphs
  rw [← cut] at remains
  obtain ⟨front, more, split, later⟩ := remains.drop
  obtain ⟨inner, rest, rfl, whole, -, -, bytes, -⟩ := later.cut nonempty
  obtain ⟨-, -, decoded⟩ := Text.pieces_cut split
  obtain ⟨-, same, -⟩ := Text.pieces_cut decoded
  rw [inside.slice_eq, begins, ends, bytes, same, split]
  exact ⟨⟨front, rest, List.append_assoc ..⟩, whole⟩

end Places

def blankPoints : List Nat :=
  [0x09, 0x0A, 0x0B, 0x0C, 0x0D, 0x20, 0x85, 0xA0, 0x1680, 0x2000, 0x2001, 0x2002, 0x2003, 0x2004, 0x2005,
    0x2006, 0x2007, 0x2008, 0x2009, 0x200A, 0x2028, 0x2029, 0x202F, 0x205F, 0x3000]

theorem mem_blankPoints {char : Char} (blank : Text.isBlank char = true) : char.toNat ∈ blankPoints := by
  unfold Text.isBlank at blank
  split at blank
  next =>
    simp only [Text.isAsciiBlank, Bool.or_eq_true, Bool.and_eq_true, decide_eq_true_eq] at blank
    rcases blank with rfl | ⟨low, high⟩
    · decide
    · have first : 0x09 ≤ char.toNat := low
      have last : char.toNat ≤ 0x0D := high
      simp only [blankPoints, List.mem_cons]
      omega
  next =>
    simp only [Text.inRanges, Text.blankRanges, List.any_cons, List.any_nil, Bool.or_eq_true,
      Bool.and_eq_true, decide_eq_true_eq, Bool.false_eq_true, or_false] at blank
    simp only [blankPoints, List.mem_cons]
    omega

theorem not_blank_of_continues {char : Char} (continues : Token.continuesCommand char = true) :
    Text.isBlank char = false := by
  refine Bool.eq_false_iff.mpr fun blank => ?_
  have never : (blankPoints.all fun point => !Token.continuesCommand (Char.ofNat point)) = true := by
    decide +kernel
  have stops := List.all_eq_true.mp never _ (mem_blankPoints blank)
  rw [Char.ofNat_toNat, continues] at stops
  cases stops

def ItemKind.continues : ItemKind → Char → Bool
  | .classType => Tree.continuesWord
  | _ => Token.continuesCommand

/-- What names of a kind look like. -/
def ItemKind.IsName (kind : ItemKind) (chars : List Char) : Prop :=
  ∃ first rest, chars = first :: rest ∧ Tree.startsWord first = true ∧
    ∀ char ∈ rest, kind.continues char = true

/-- No carriage return of the text stands directly in front of a character of names. -/
def Text.SparesNames (source : Text) : Prop :=
  ∀ char, ['\r', char] <:+: source.chars → Token.continuesCommand char = false

theorem sparesNames_iff (source : Text) :
    source.SparesNames ↔ ∀ pair ∈ source.chars.zip source.chars.tail,
      pair.1 = '\r' → Token.continuesCommand pair.2 = false := by
  simp only [Text.SparesNames, List.pair_infix_iff, Prod.forall]
  constructor
  · rintro spares _ char stands rfl
    exact spares char stands
  · exact fun spares char stands => spares '\r' char stands rfl

instance (source : Text) : Decidable source.SparesNames := decidable_of_iff _ (sparesNames_iff source).symm

namespace Item

variable {item : Item} {source : Text}

theorem continuesCommand_of_kind {kind : ItemKind} {char : Char} (continues : kind.continues char = true) :
    Token.continuesCommand char = true := by
  cases kind with
  | classType => exact Token.continuesCommand_of_word continues
  | function | pseudo => exact continues

theorem continues_of_isName {kind : ItemKind} {chars : List Char} (named : kind.IsName chars) :
    ∀ char ∈ chars, kind.continues char = true := by
  obtain ⟨first, rest, rfl, starts, continues⟩ := named
  refine List.forall_mem_cons.mpr ⟨?_, continues⟩
  have word := Tree.continuesWord_of_starts starts
  cases kind with
  | classType => exact word
  | function | pseudo => exact Token.continuesCommand_of_word word

structure CutFrom (source : Text) (item : Item) : Prop where
  visible : item.kind.IsName item.name.visible
  within : item.name.chars <:+: source.chars
  ends : item.name.chars.getLast? ≠ some '\r'

theorem CutFrom.exists_spoiling (cut : item.CutFrom source) (spoiled : '\r' ∈ item.name.chars) :
    ∃ char, item.kind.continues char = true ∧ ['\r', char] <:+: source.chars := by
  obtain ⟨next, member, visible, stands⟩ := List.exists_pair_infix spoiled cut.ends
  have shown : next ∈ item.name.visible := by simp [Text.visible, member, visible]
  exact ⟨next, continues_of_isName cut.visible next shown, stands.trans cut.within⟩

theorem CutFrom.visible_eq (cut : item.CutFrom source) (spared : source.SparesNames) :
    item.name.visible = item.name.chars := by
  apply List.filter_eq_self.mpr
  intro char member
  rw [decide_eq_true_eq]
  rintro rfl
  obtain ⟨next, continues, stands⟩ := cut.exists_spoiling member
  have command := continuesCommand_of_kind continues
  rw [spared next stands] at command
  cases command

/-- Names that are spelled alike are looked up alike. -/
theorem CutFrom.key_eq {twin : Item} {other : Text} (cut : item.CutFrom source)
    (spared : source.SparesNames) (twinCut : twin.CutFrom other) (otherSpared : other.SparesNames)
    (kind : twin.kind = item.kind) (spelled : twin.name.visible = item.name.visible) :
    twin.key = item.key := by
  rw [cut.visible_eq spared, twinCut.visible_eq otherSpared] at spelled
  rw [key, key, kind, Text.lower, spelled]
  rfl

end Item

namespace Script

open Token

variable {source : Text} {found : Finding}

def items (script : Script) : List Item :=
  script.definitions.map Definition.item ++ script.usages.map Usage.item

theorem exists_finding {tokens : List Token} {item : Item}
    (member : item ∈ (ofTokens source tokens).items) :
    ∃ found ∈ (streams tokens).flatMap (findings source .symbol), found.item = item := by
  simp only [items, ofTokens, List.mem_append, List.mem_map, List.mem_filterMap] at member
  obtain ⟨_, ⟨found, listed, same⟩, rfl⟩ | ⟨_, ⟨found, listed, same⟩, rfl⟩ := member
  · cases found with
    | definition => exact ⟨_, listed, congrArg Definition.item (Option.some.inj same)⟩
    | usage => cases same
  · cases found with
    | definition => cases same
    | usage => exact ⟨_, listed, congrArg Usage.item (Option.some.inj same)⟩

theorem report_spelled {occurrence : Occurrence} (reported : report? source occurrence = some found)
    (spells : occurrence.token.Spells source) :
    SpelledName source found.item.kind.continues found.span.start.byte found.span.stop.byte := by
  obtain ⟨token, item⟩ | ⟨token, item⟩ := report_cases reported
  all_goals
    rw [token] at spells
    rw [item]
    exact spells

theorem marks_found {tokens : List Token} (accepted : Token.read source = .ok tokens) :
    ∀ found ∈ (streams tokens).flatMap (findings source .symbol),
      found.span.start.Marks source ∧ found.span.stop.Marks source := by
  have respaced : Tree.Respaced source.marking [] source.glyphs source.glyphs := .of_itself []
  intro found member
  obtain ⟨_, _, refused, -⟩ | ⟨same, twins, here, -, alike⟩ := (Token.read_agree respaced).outcomes
  · cases accepted.symm.trans refused
  · obtain rfl := Except.ok.inj (accepted.symm.trans here)
    obtain ⟨other, reads⟩ := reads_found alike.streams found member
    exact ⟨reads.start, reads.stop⟩

/-- Whatever a script defines or uses is called by a name that was cut out of its text. -/
theorem cutFrom_of_read {text : Text} {script : Script} (accepted : read text = .ok script) :
    ∀ item ∈ script.items, item.CutFrom text.dropMark := by
  obtain ⟨tokens, tokenized, same⟩ := Except.exists_of_bind accepted
  obtain rfl := Except.ok.inj same
  intro item member
  obtain ⟨found, listed, rfl⟩ := exists_finding member
  have among := (found_perm_reports text.dropMark tokens).mem_iff.mp listed
  obtain ⟨inside, named⟩ := report_bounds (nested_of_read tokenized) found among
  obtain ⟨start, stop⟩ := marks_found tokenized found listed
  obtain ⟨cut, whole⟩ := inside.whole start stop
  rw [← named] at cut whole
  refine ⟨?_, cut.map _, ?_⟩
  · obtain ⟨occurrence, stands, reported⟩ := List.mem_filterMap.mp among
    rw [named, inside.slice_eq]
    exact report_spelled reported (spells_of_read tokenized occurrence stands)
  · rw [Text.chars, List.getLast?_map]
    intro ends
    obtain ⟨last, back, same⟩ := Option.map_eq_some_iff.mp ends
    exact whole last back same

/-- The names of a script, their carriage returns left out, start as a word does and go on with the
characters of their kind. A carriage return gets into a name only where one stands directly in front of
such a character. In a text where none does, names are nothing but such characters and hold no blanks,
and two names of a kind that are spelled alike have one key, also across such texts. -/
theorem names_spelled {text : Text} {script : Script} (accepted : read text = .ok script) :
    ∀ item ∈ script.items,
      item.kind.IsName item.name.visible ∧
      ('\r' ∈ item.name.chars → ∃ char, item.kind.continues char = true ∧
        ['\r', char] <:+: text.dropMark.chars) ∧
      (text.dropMark.SparesNames →
        item.kind.IsName item.name.chars ∧ (∀ char ∈ item.name.chars, Text.isBlank char = false) ∧
        ∀ other otherScript, read other = .ok otherScript → other.dropMark.SparesNames →
          ∀ twin ∈ otherScript.items, twin.kind = item.kind →
            twin.name.visible = item.name.visible → twin.key = item.key) := by
  intro item member
  have cut := cutFrom_of_read accepted item member
  refine ⟨cut.visible, cut.exists_spoiling, fun spared => ?_⟩
  have named := cut.visible
  rw [cut.visible_eq spared] at named
  refine ⟨named, ?_, ?_⟩
  · intro char among
    have continues := Item.continues_of_isName named char among
    exact not_blank_of_continues (Item.continuesCommand_of_kind continues)
  · intro other otherScript otherAccepted otherSpared twin among
    exact cut.key_eq spared (cutFrom_of_read otherAccepted twin among) otherSpared

def returning : Text := "function Foo \x7b\x7d\r\nFoo"

def returned : Script where
  imports := []
  definitions := [⟨⟨"Foo", .function⟩, ⟨⟨9, 1, 10⟩, ⟨12, 1, 13⟩⟩⟩]
  usages := [⟨⟨"Foo", .function⟩, ⟨⟨17, 2, 1⟩, ⟨20, 2, 4⟩⟩⟩]
  testcases := []

theorem returning_names_spelled :
    read returning = .ok returned ∧ ⟨"Foo", .function⟩ ∈ returned.items ∧
      ItemKind.function.IsName (Text.chars "Foo") ∧
      ∀ char ∈ Text.chars "Foo", Text.isBlank char = false := by
  have accepted : read returning = .ok returned := by decide +kernel
  have member : ⟨"Foo", .function⟩ ∈ returned.items := List.mem_cons_self
  have spared : returning.dropMark.SparesNames := by decide +kernel
  obtain ⟨-, -, clean⟩ := names_spelled accepted _ member
  obtain ⟨named, blankless, -⟩ := clean spared
  exact ⟨accepted, member, named, blankless⟩

/-- A function and its use, with a carriage return behind the line feed between them. -/
def stray : Text := "function Foo \x7b\x7d\n\rFoo"

/-- The carriage return becomes part of the name, and the function is not found by it. -/
theorem stray_spoils_name :
    ∃ script, read stray = .ok script ∧ ∃ definition ∈ script.definitions, ∃ usage ∈ script.usages,
      usage.item.kind = definition.item.kind ∧
      usage.item.name.visible = definition.item.name.visible ∧
      '\r' ∈ usage.item.name.chars ∧ ¬ usage.item.kind.IsName usage.item.name.chars ∧
      usage.item.key ≠ definition.item.key := by
  refine ⟨⟨[], [⟨⟨"Foo", .function⟩, ⟨⟨9, 1, 10⟩, ⟨12, 1, 13⟩⟩⟩],
    [⟨⟨"\rFoo", .function⟩, ⟨⟨16, 2, 1⟩, ⟨20, 2, 4⟩⟩⟩], []⟩, by decide +kernel, _,
    List.mem_cons_self, _, List.mem_cons_self, rfl, by decide +kernel, by decide +kernel, ?_,
    by decide +kernel⟩
  rintro ⟨first, rest, same, starts, -⟩
  have carriage : Text.chars "\rFoo" = '\r' :: "Foo".toList := by decide +kernel
  obtain ⟨rfl, -⟩ := List.cons.inj (same.symm.trans carriage)
  exact absurd starts (by decide +kernel)

end Script

end ScopeLint
