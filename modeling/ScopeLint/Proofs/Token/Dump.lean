import ScopeLint.Proofs.Script.CleanNames
import ScopeLint.Proofs.Text.Split
import ScopeLint.Proofs.Token.Coverage
import ScopeLint.Token.Dump

/-!
The dump of a text shows all of it. The tokens at all depths lie behind one another, so the mark of none
starts inside what has been written; between the marks the text is copied, and a semicolon ends in a line
feed exactly if a line break stands in its place.
-/

namespace ScopeLint

namespace Token

/-- The place that the dump marks for a token: that of its name, or of the whole token. -/
def place (token : Token) : Span := token.name?.getD token.span

/-- All tokens of a text, those that a token holds directly behind it. -/
def everyToken (tokens : List Token) : List Token := (occurrences tokens).map Occurrence.token

/-- Tokens with a name, keywords, and semicolons in the place of a line break. -/
def isMarked (source : Text) : Token → Bool
  | symbol char span => char = ';' && source.between span.start.byte span.stop.byte = ['\n']
  | token => token.style?.isSome

inductive Stretch where
  /-- It is copied. -/
  | copied (text : Text)
  /-- It is the place of a token and shown in another way. -/
  | marked (token : Token) (text : Text)

namespace Stretch

def text : Stretch → Text
  | copied text => text
  | marked _ text => text

def token? : Stretch → Option Token
  | copied _ => none
  | marked token _ => some token

/-- What the dump has for a stretch: names and keywords as they are and a semicolon in front of a line
break, in brackets or in the colour of their kind, red for the line break. -/
def shown (colored : Bool) : Stretch → Text
  | copied text => text
  | marked token text =>
      let inner : Text := if token.kind = .symbol then ";\n" else text
      if colored then (token.style?.getD .red).escape ++ inner ++ Style.reset.escape
      else "[" ++ inner ++ "]"

end Stretch

def stretchesFrom (source : Text) : (done : Nat) → List Token → List Stretch
  | done, [] => [.copied (source.drop done)]
  | done, token :: rest =>
      let start := token.place.start.byte.toNat
      let stop := token.place.stop.byte.toNat
      .copied (source.slice done start) :: .marked token (source.slice start stop)
        :: stretchesFrom source stop rest

variable {source : Text} {tokens : List Token} {token : Token} {done : Nat} {start stop : Int}

section Places

structure Holds (token : Token) : Prop where
  encloses : token.span.Encloses token.place
  ordered : token.place.start.byte ≤ token.place.stop.byte

theorem holds_formed : Formed source Holds where
  ofRun := by
    intro run behind token start stop forms level
    obtain ⟨-, width, encloses, -⟩ := forms.spanned level
    cases named : token.name? with
    | none =>
        have whole : token.place = token.span := by rw [place, named, Option.getD_none]
        refine ⟨?_, ?_⟩
        all_goals rw [whole]
        · exact ⟨Int.le_refl _, Int.le_refl _⟩
        · exact Int.le_of_lt width
    | some name =>
        have part : token.place = name := by rw [place, named, Option.getD_some]
        rcases forms.name name named with rfl | ⟨tree, among, rfl⟩
        · refine ⟨?_, ?_⟩
          all_goals rw [part]
          · exact ⟨Int.le_refl _, Int.le_refl _⟩
          · exact Int.le_of_lt width
        · obtain ⟨-, filled, -, -⟩ := level.covers tree (List.mem_append_left _ among)
          refine ⟨?_, ?_⟩
          all_goals rw [part]
          · exact encloses tree among
          · exact Int.le_of_lt filled
  ofName _ filled := ⟨⟨Int.le_refl _, Int.le_refl _⟩, Int.le_of_lt filled⟩
  ofPart _ _ _ filled _ := ⟨⟨Int.le_refl _, Int.le_refl _⟩, Int.le_of_lt filled⟩

/-- What a symbol stands for: its own character, or a line break if it is a semicolon. -/
def StandsFor (source : Text) : Token → Prop
  | symbol char span => source.between span.start.byte span.stop.byte = [char] ∨
      char = ';' ∧ source.between span.start.byte span.stop.byte = ['\n']
  | _ => True

theorem standsFor_formed : Formed source (StandsFor source) where
  ofRun := by
    intro run behind token start stop forms level
    cases forms with
    | command =>
        unfold ofCommand
        dsimp only
        repeat' split
        all_goals trivial
    | symbol =>
        obtain ⟨-, -, -, covers⟩ := level.covers _ List.mem_cons_self
        rw [Tree.Covers] at covers
        exact .inl covers.1
    | lineBreak =>
        obtain ⟨-, -, -, covers⟩ := level.covers _ List.mem_cons_self
        rw [Tree.Covers] at covers
        exact .inr ⟨rfl, covers.1⟩
    | _ => trivial
  ofName _ _ := trivial
  ofPart _ _ _ _ _ := trivial

section Alike

variable {pair : Respacing}

theorem Alike.spans {twin : Token} (alike : Alike pair token twin) : pair.Spans token.span twin.span := by
  match alike with
  | .variable spans _ | .flag spans _ | .string spans _ | .group spans _ | .doubleColon spans
  | .symbol spans => exact spans
  | .cmdlet reads | .field reads | .keyword reads | .word reads | .number reads =>
      exact reads.toSpans

mutual

theorem Alike.within {token twin : Token} (alike : Alike pair token twin) :
    ∀ occurrence ∈ occurrencesIn token, ∃ other, Alike pair occurrence.token other := by
  match alike with
  | .string _ inside => exact inside.among _ none
  | .group _ inside => exact inside.among _ none
  | .variable .. | .flag .. | .cmdlet .. | .field .. | .keyword .. | .word .. | .number ..
  | .doubleColon .. | .symbol .. => simp [occurrencesIn]

theorem AllAlike.among {tokens twins : List Token} (alike : AllAlike pair tokens twins)
    (holder previous : Option Token) :
    ∀ occurrence ∈ occurrencesOf holder previous tokens, ∃ other, Alike pair occurrence.token other := by
  match alike with
  | .nil => simp [occurrencesOf]
  | .cons first more =>
      rw [occurrencesOf, List.forall_mem_cons, List.forall_mem_append]
      exact ⟨⟨_, first⟩, first.within, more.among holder _⟩

end

end Alike

theorem marks_of_read (accepted : read source = .ok tokens) : ∀ occurrence ∈ occurrences tokens,
    occurrence.token.span.start.Marks source ∧ occurrence.token.span.stop.Marks source := by
  have respaced : Tree.Respaced source.marking [] source.glyphs source.glyphs := .of_itself []
  intro occurrence among
  obtain ⟨_, _, refused, -⟩ | ⟨same, twins, here, -, alike⟩ := (read_agree respaced).outcomes
  · cases accepted.symm.trans refused
  · obtain rfl := Except.ok.inj (accepted.symm.trans here)
    obtain ⟨other, twin⟩ := alike.among none none occurrence among
    exact ⟨twin.spans.start, twin.spans.stop⟩

end Places

section LineBreaks

/-- The last byte of a text that shows one character, with carriage returns only in front of it. -/
theorem exists_last {text : Text} {char : Char} (whole : Glyph.Whole text.pieces)
    (visible : text.visible = [char]) (ascii : Text.IsAscii char) :
    ∃ front, text = front ++ [Text.byte char] := by
  rcases List.eq_nil_or_concat text.pieces with empty | ⟨front, last, split⟩
  · rw [Text.visible, Text.chars, empty] at visible
    cases visible
  · rw [List.concat_eq_append] at split
    have shown : last.char ≠ '\r' := whole last (by simp [split])
    obtain rfl : last.char = char := by
      rw [Text.visible, Text.chars, split, List.map_append, List.filter_append] at visible
      have single : [last.char] = [char] := by
        simpa [shown] using congrArg List.getLast? visible
      exact List.singleton_inj.mp single
    refine ⟨Text.ofPieces front, ?_⟩
    have member : last ∈ text.pieces := by simp [split]
    have bytes := Text.bytes_of_ascii member ascii
    rw [← bytes]
    conv => lhs; rw [← Text.ofPieces_pieces text, split, Text.ofPieces_append]
    simp [Text.ofPieces]

/-- A semicolon ends in a line feed just if it stands for a line break. -/
theorem endsWith_iff (accepted : read source = .ok tokens) {occurrence : Occurrence}
    (among : occurrence ∈ occurrences tokens) {span : Span} (semicolon : occurrence.token = symbol ';' span) :
    (span.slice source).endsWith "\n" = true ↔
      source.between span.start.byte span.stop.byte = ['\n'] := by
  have leaf : occurrence.token ∈ leaves (occurrences tokens) := by
    apply List.mem_filter.mpr
    exact ⟨List.mem_map_of_mem among, by rw [semicolon]; rfl⟩
  obtain ⟨low, width, high⟩ := (nested_leaves tokens none none (nested_of_read accepted)).bounds _ leaf
  obtain ⟨begins, ends⟩ := marks_of_read accepted occurrence among
  have stands := formed_of_read standsFor_formed accepted occurrence among
  rw [semicolon] at low width high begins ends stands
  have inside : span.In source := ⟨⟨low, Int.le_of_lt width, high⟩, width⟩
  obtain ⟨-, whole⟩ := inside.whole begins ends
  have same : source.between span.start.byte span.stop.byte = (span.slice source).visible := by
    rw [inside.slice_eq]
    rfl
  have feed : Text.ofString "\n" = [Text.lineFeed] := by decide
  rw [StandsFor, same] at stands
  rw [same, Text.endsWith, List.isSuffixOf_iff_suffix, feed]
  rcases stands with written | ⟨-, broken⟩
  · obtain ⟨front, text⟩ := exists_last whole written ⟨by decide, by decide⟩
    rw [written, text]
    refine iff_of_false ?_ (by decide)
    rintro ⟨other, ending⟩
    exact absurd (List.append_inj' ending rfl).2 (by decide)
  · obtain ⟨front, text⟩ := exists_last whole broken ⟨by decide, by decide⟩
    exact iff_of_true ⟨front, text.symm⟩ broken

end LineBreaks

section Marks

def markOf (source : Text) (token : Token) : Mark :=
  markAt token.place (if token.kind = .symbol then ";\n" else token.place.slice source)
    (token.style?.getD .red)

theorem ownMark_eq (exact : ∀ span, token = symbol ';' span →
    ((span.slice source).endsWith "\n" = true ↔
      source.between span.start.byte span.stop.byte = ['\n'])) :
    ownMark? source token = if isMarked source token then some (markOf source token) else none := by
  cases token with
  | symbol char span =>
      by_cases semicolon : char = ';'
      · subst semicolon
        simp [ownMark?, isMarked, exact span rfl, markOf, kind, style?, place, name?, Token.span]
      · simp [ownMark?, isMarked, semicolon, style?]
  | _ => simp [ownMark?, isMarked, markOf, kind, style?, place, name?]

mutual

theorem marksOf_occurrences (tokens : List Token) (holder previous : Option Token) :
    marksOf source tokens =
      ((occurrencesOf holder previous tokens).map Occurrence.token).filterMap (ownMark? source) := by
  cases tokens with
  | nil => rfl
  | cons token rest =>
      rw [marksOf, occurrencesOf, marks_occurrences token, marksOf_occurrences rest holder (some token)]
      cases own : ownMark? source token <;> simp [own]

theorem marks_occurrences (token : Token) : marks source token = (ownMark? source token).toList ++
    ((occurrencesIn token).map Occurrence.token).filterMap (ownMark? source) := by
  cases token with
  | string span parts => exact marksOf_occurrences parts _ none
  | group delimiter sign span body => exact marksOf_occurrences body _ none
  | _ => simp [marks, occurrencesIn]

end

/-- The marks of a text that can be read are those of the tokens that are to be marked. -/
theorem marksOf_eq (accepted : read source = .ok tokens) : marksOf source tokens =
    ((everyToken tokens).filter (isMarked source)).map (markOf source) := by
  have own : ∀ token ∈ everyToken tokens, ownMark? source token =
      if isMarked source token then some (markOf source token) else none := by
    intro token member
    obtain ⟨occurrence, among, rfl⟩ := List.mem_map.mp member
    exact ownMark_eq fun span semicolon => endsWith_iff accepted among semicolon
  calc marksOf source tokens
      = (everyToken tokens).filterMap (ownMark? source) := marksOf_occurrences tokens none none
    _ = (everyToken tokens).filterMap fun token =>
          if isMarked source token then some (markOf source token) else none :=
        List.filterMap_congr own
    _ = ((everyToken tokens).filter (isMarked source)).filterMap (some ∘ markOf source) :=
        List.filterMap_filter.symm
    _ = ((everyToken tokens).filter (isMarked source)).map (markOf source) := by
        rw [List.filterMap_eq_map]

end Marks

section Order

def Placed (source : Text) : (done : Int) → List Token → Prop
  | done, [] => done ≤ source.length
  | done, token :: rest => done ≤ token.place.start.byte ∧
      token.place.start.byte ≤ token.place.stop.byte ∧ Placed source token.place.stop.byte rest

theorem Nested.filter (nested : Nested start stop tokens) (keeps : Token → Bool) :
    Nested start stop (tokens.filter keeps) := by
  induction tokens generalizing start with
  | nil => exact nested
  | cons token rest induction =>
      rw [Nested] at nested
      obtain ⟨low, width, nests, later⟩ := nested
      by_cases kept : keeps token = true
      · rw [List.filter_cons_of_pos kept, Nested]
        exact ⟨low, width, nests, induction later⟩
      · rw [List.filter_cons_of_neg kept]
        exact (induction later).widen (by omega) (Int.le_refl _)

theorem placed_of_nested {done : Int} (nested : Nested start stop tokens)
    (holds : ∀ token ∈ tokens, Holds token) (before : done ≤ start) (within : stop ≤ source.length) :
    Placed source done tokens := by
  induction tokens generalizing start done with
  | nil =>
      rw [Nested] at nested
      rw [Placed]
      omega
  | cons token rest induction =>
      obtain ⟨⟨⟨first, last⟩, ordered⟩, others⟩ := List.forall_mem_cons.mp holds
      rw [Nested] at nested
      obtain ⟨low, width, -, later⟩ := nested
      rw [Placed]
      exact ⟨by omega, ordered, induction later others last⟩

theorem isLeaf_of_isMarked (marked : isMarked source token = true) : token.isLeaf = true := by
  cases token <;> first | rfl | cases marked

theorem placed_of_read (accepted : read source = .ok tokens) :
    Placed source 0 ((everyToken tokens).filter (isMarked source)) := by
  have nested := (nested_leaves tokens none none (nested_of_read accepted)).filter (isMarked source)
  have same : (leaves (occurrencesOf none none tokens)).filter (isMarked source) =
      (everyToken tokens).filter (isMarked source) := by
    rw [leaves, List.filter_filter]
    apply List.filter_congr
    intro token _
    cases marked : isMarked source token with
    | false => simp
    | true => simp [isLeaf_of_isMarked marked]
  rw [same] at nested
  apply placed_of_nested nested ?_ (Int.le_refl _) (Int.le_refl _)
  intro token member
  obtain ⟨occurrence, among, rfl⟩ := List.mem_map.mp (List.mem_of_mem_filter member)
  exact formed_of_read holds_formed accepted occurrence among

theorem Placed.le {done : Int} (placed : Placed source done tokens) : done ≤ source.length := by
  induction tokens generalizing done with
  | nil => exact placed
  | cons token rest induction =>
      rw [Placed] at placed
      obtain ⟨before, ordered, later⟩ := placed
      have bound := induction later
      omega

end Order

section Stretches

theorem text_stretchesFrom (placed : Placed source done tokens) :
    (stretchesFrom source done tokens).flatMap Stretch.text = source.drop done := by
  induction tokens generalizing done with
  | nil => simp [stretchesFrom, Stretch.text]
  | cons token rest induction =>
      rw [Placed] at placed
      obtain ⟨before, ordered, later⟩ := placed
      have first : done ≤ token.place.start.byte.toNat := by omega
      have last : token.place.start.byte.toNat ≤ token.place.stop.byte.toNat := by omega
      have behind : Placed source token.place.stop.byte.toNat rest := by
        rwa [Int.toNat_of_nonneg (by omega)]
      rw [stretchesFrom, List.flatMap_cons, List.flatMap_cons, induction behind]
      simp only [Stretch.text]
      rw [Text.slice_append_drop last, Text.slice_append_drop first]

theorem shown_stretchesFrom (colored : Bool) (placed : Placed source done tokens) :
    (stretchesFrom source done tokens).flatMap (Stretch.shown colored) =
      writeMarks source colored done (tokens.map (markOf source)) := by
  induction tokens generalizing done with
  | nil => simp [stretchesFrom, Stretch.shown, writeMarks]
  | cons token rest induction =>
      rw [Placed] at placed
      obtain ⟨before, ordered, later⟩ := placed
      have bound := later.le
      have behind : Placed source token.place.stop.byte.toNat rest := by
        rwa [Int.toNat_of_nonneg (by omega)]
      have goes : ¬ (markOf source token).start < done := by
        simp only [markOf, markAt]
        omega
      have slice : token.place.slice source =
          source.slice token.place.start.byte.toNat token.place.stop.byte.toNat := by
        rw [Span.slice, if_neg]
        simp only [Bool.or_eq_true, decide_eq_true_eq]
        omega
      rw [stretchesFrom, List.flatMap_cons, List.flatMap_cons, induction behind, List.map_cons,
        writeMarks, if_neg goes]
      simp only [Stretch.shown, markOf, markAt, Mark.text, slice, List.append_assoc]

theorem token_stretchesFrom (source : Text) (done : Nat) (tokens : List Token) :
    (stretchesFrom source done tokens).filterMap Stretch.token? = tokens := by
  induction tokens generalizing done with
  | nil => rfl
  | cons token rest induction =>
      rw [stretchesFrom]
      simp only [List.filterMap_cons, Stretch.token?, induction]

theorem place_stretchesFrom (placed : Placed source done tokens) {front behind : List Stretch}
    {text : Text} (split : stretchesFrom source done tokens = front ++ .marked token text :: behind) :
    token.place.start.byte = done + (front.flatMap Stretch.text).length ∧
      token.place.stop.byte = done + (front.flatMap Stretch.text).length + text.length := by
  induction tokens generalizing done front with
  | nil =>
      rw [stretchesFrom] at split
      cases front with
      | nil => cases split
      | cons first front => simp at split
  | cons first rest induction =>
      rw [Placed] at placed
      obtain ⟨before, ordered, later⟩ := placed
      have bound := later.le
      have behind : Placed source first.place.stop.byte.toNat rest := by
        rwa [Int.toNat_of_nonneg (by omega)]
      rw [stretchesFrom] at split
      have passed : (source.slice done first.place.start.byte.toNat).length =
          first.place.start.byte.toNat - done := Text.length_slice (by omega)
      have marked : (source.slice first.place.start.byte.toNat first.place.stop.byte.toNat).length =
          first.place.stop.byte.toNat - first.place.start.byte.toNat := Text.length_slice (by omega)
      match front, split with
      | [], split => cases (List.cons.inj split).1
      | [copy], split =>
          obtain ⟨same, split⟩ := List.cons.inj split
          obtain ⟨here, -⟩ := List.cons.inj split
          obtain ⟨rfl, rfl⟩ := Stretch.marked.inj here
          subst same
          simp only [List.flatMap_cons, List.flatMap_nil, List.append_nil, Stretch.text]
          omega
      | copy :: mark :: front, split =>
          obtain ⟨same, split⟩ := List.cons.inj split
          obtain ⟨here, split⟩ := List.cons.inj split
          obtain ⟨start, stop⟩ := induction behind split
          subst same here
          simp only [List.flatMap_cons, Stretch.text, List.length_append]
          omega

end Stretches

/-- A dump shows the whole text, stretch by stretch and each once. The stretches that it does not copy
are the places of all tokens, at all depths, that have a name, are keywords or stand for the line break
behind a statement. -/
theorem dump_of_read (accepted : read source = .ok tokens) (colored : Bool) :
    ∃ stretches : List Stretch,
      stretches.flatMap Stretch.text = source ∧
      stretches.flatMap (Stretch.shown colored) = dump source colored tokens ∧
      stretches.filterMap Stretch.token? = (everyToken tokens).filter (isMarked source) ∧
      ∀ front token text behind, stretches = front ++ .marked token text :: behind →
        token.place.start.byte = ((front.flatMap Stretch.text).length : Int) ∧
        token.place.stop.byte = ((front.flatMap Stretch.text).length : Int) + text.length := by
  have placed := placed_of_read accepted
  refine ⟨stretchesFrom source 0 _, text_stretchesFrom placed, ?_, token_stretchesFrom _ _ _, ?_⟩
  · rw [shown_stretchesFrom colored placed, dump, marksOf_eq accepted]
  · intro front token text behind split
    have places := place_stretchesFrom placed split
    simpa using places

/-- Names at three depths, a keyword, a flag, and a carriage return in front of a line break. -/
def shelf : Text := "class A \x7b$b.C\x7d\r\nGet-D -E \"f $(g $h)\""

def shelfDump : Text := "[class] [A] \x7b$[b].[C]\x7d[;\n][Get-D] -[E] \"f $([g] $[h])\""

theorem shelf_dumped :
    ∃ tokens, read shelf = .ok tokens ∧ dump shelf false tokens = shelfDump ∧
      ∃ stretches : List Stretch, stretches.flatMap Stretch.text = shelf ∧
        stretches.flatMap (Stretch.shown false) = shelfDump ∧
        (stretches.filterMap Stretch.token?).map (fun token => (token.kind, token.place.start.byte)) =
          [(.keyword .classWord, 0), (.field, 6), (.variable, 10), (.field, 12), (.symbol, 14),
            (.cmdlet, 16), (.flag, 23), (.cmdlet, 30), (.variable, 33)] := by
  have outcome : (read shelf).toOption.map (fun tokens => (dump shelf false tokens,
      ((everyToken tokens).filter (isMarked shelf)).map
        fun token => (token.kind, token.place.start.byte))) =
      some (shelfDump, [(.keyword .classWord, 0), (.field, 6), (.variable, 10), (.field, 12),
        (.symbol, 14), (.cmdlet, 16), (.flag, 23), (.cmdlet, 30), (.variable, 33)]) := by
    decide +kernel
  obtain ⟨tokens, accepted, same⟩ := Except.exists_of_toOption_map outcome
  obtain ⟨dumped, marked⟩ := Prod.mk.inj same
  obtain ⟨stretches, whole, shown, tokensOf, -⟩ := dump_of_read accepted false
  refine ⟨tokens, accepted, dumped, stretches, whole, shown.trans dumped, ?_⟩
  rw [tokensOf]
  exact marked

end Token

end ScopeLint
