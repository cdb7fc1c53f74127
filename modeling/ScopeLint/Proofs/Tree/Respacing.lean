import ScopeLint.Proofs.Tree.Respaced

/-!
Reading a respaced text. The reader goes through both texts in step: it fails in both with the same
fault, or reads lexemes that are alike, in groups and strings as well as between them. Where a
comment has become blank, the one run skips the comment while the other skips the spaces.
-/

namespace ScopeLint.Tree

open Machine

variable {pair : Respacing} {stack after : List Open} {fuel fuelTwin : Nat}
  {glyph twin first firstTwin : Glyph} {glyphs twins rest others left leftTwins : List Glyph}
  {tree treeTwin : Tree}

/-- Two readers in front of glyphs of which the second are the first ones respaced, with fuel for
all of them. -/
structure Ready (pair : Respacing) (stack : List Open) (fuel fuelTwin : Nat)
    (glyphs twins : List Glyph) : Prop where
  respaced : Respaced pair stack glyphs twins
  within : glyphs <:+ pair.source.glyphs
  withinTwin : twins <:+ pair.other.glyphs
  enough : glyphs.length < fuel
  enoughTwin : twins.length < fuelTwin

theorem Ready.later (ready : Ready pair stack (fuel + 1) (fuelTwin + 1) (glyph :: rest) (twin :: others))
    (respaced : Respaced pair after left leftTwins) (behind : left <:+ rest)
    (behindTwin : leftTwins <:+ others) : Ready pair after fuel fuelTwin left leftTwins := by
  have enough := ready.enough
  have enoughTwin := ready.enoughTwin
  have shorter := behind.length_le
  have shorterTwin := behindTwin.length_le
  rw [List.length_cons] at enough enoughTwin
  exact ⟨respaced, (behind.trans (List.suffix_cons _ _)).trans ready.within,
    (behindTwin.trans (List.suffix_cons _ _)).trans ready.withinTwin, by omega, by omega⟩

/-- The same fuel lasts for less. -/
theorem Ready.shorter (ready : Ready pair stack fuel fuelTwin glyphs twins)
    (respaced : Respaced pair after left leftTwins) (behind : left <:+ glyphs)
    (behindTwin : leftTwins <:+ twins) : Ready pair after fuel fuelTwin left leftTwins :=
  ⟨respaced, behind.trans ready.within, behindTwin.trans ready.withinTwin,
    Nat.lt_of_le_of_lt behind.length_le ready.enough,
    Nat.lt_of_le_of_lt behindTwin.length_le ready.enoughTwin⟩

/-- What the reader makes of glyphs and of the same ones respaced. The first lexemes stand both at
the very front or both behind something. -/
structure ReadAlike (pair : Respacing) (stack : List Open) (glyphs twins : List Glyph)
    (read twin : List Tree × List Glyph) : Prop where
  trees : StreamAlike pair read.1 twin.1
  first : ∀ tree ∈ read.1.head?, ∀ other ∈ twin.1.head?,
    (tree.span.start = pair.source.placeOf glyphs ↔ other.span.start = pair.other.placeOf twins)
  left : Respaced pair stack read.2 twin.2

structure StringAlike (pair : Respacing) (stack : List Open)
    (read twin : List Tree × Location × List Glyph) : Prop where
  parts : PartsAlike pair read.1 twin.1
  last : pair.place read.2.1 twin.2.1
  left : Respaced pair stack read.2.2 twin.2.2

structure GroupAlike (pair : Respacing) (stack : List Open) (read twin : Tree × List Glyph) :
    Prop where
  tree : Alike pair read.1 twin.1
  left : Respaced pair stack read.2 twin.2

def TreesAgree (pair : Respacing) (fuel : Nat) : Prop :=
  ∀ stack fuelTwin glyphs twins, InCode stack → Ready pair stack fuel fuelTwin glyphs twins →
    pair.Agree (ReadAlike pair stack glyphs twins) (readTrees pair.source.stop fuel glyphs)
      (readTrees pair.other.stop fuelTwin twins)

def StringsAgree (pair : Respacing) (fuel : Nat) : Prop :=
  ∀ form formTwin stack fuelTwin glyphs twins, FormAlike pair form formTwin → IsQuote form.quote →
    Ready pair (.string form :: stack) fuel fuelTwin glyphs twins →
    pair.Agree (StringAlike pair stack) (readString pair.source.stop fuel form glyphs)
      (readString pair.other.stop fuelTwin formTwin twins)

theorem le_start_of_readTrees {source : Text} {trees : List Tree} (within : glyphs <:+ source.glyphs)
    (success : readTrees source.stop fuel glyphs = .ok (trees, left)) :
    ∀ tree ∈ trees.head?, (source.placeOf glyphs).byte ≤ tree.span.start.byte := by
  intro tree head
  obtain ⟨more, rfl⟩ := List.head?_eq_some_iff.mp head
  have laid := (readers_laid source fuel).1 glyphs (tree :: more) left within success
  obtain ⟨gap, glyph, rest, rfl, start, -⟩ := laid.exists_head within
  rw [start]
  exact Text.placeOf_le within

theorem left_suffix {source : Text} {trees : List Tree} (within : glyphs <:+ source.glyphs)
    (success : readTrees source.stop fuel glyphs = .ok (trees, left)) : left <:+ glyphs :=
  ((readers_laid source fuel).1 glyphs trees left within success).suffix

theorem last_of_readString {source : Text} {form : Quotation} {parts : List Tree} {last : Location}
    (within : glyphs <:+ source.glyphs)
    (success : readString source.stop fuel form glyphs = .ok (parts, last, left)) :
    last = source.placeOf left ∧ left <:+ glyphs := by
  obtain ⟨closing, ending, -, place, -⟩ := (readers_laid source fuel).2 _ _ _ _ _ within success
  exact ⟨place, (List.suffix_append _ _).trans ending⟩

theorem atClosing_of_readTrees {stop : Location} {trees : List Tree} (code : InCode stack)
    (enough : glyphs.length < fuel) (success : readTrees stop fuel glyphs = .ok (trees, left)) :
    AtClosing left := by
  have follows := (readers_follow stop fuel).1 stack glyphs code enough
  rw [success] at follows
  exact follows.2.1

theorem readTrees_spaces (stop : Location) {blanks : List Glyph}
    (spaces : ∀ blank ∈ blanks, blank.char = ' ') (fuel : Nat) (rest : List Glyph) :
    readTrees stop (fuel + blanks.length) (blanks ++ rest) = readTrees stop fuel rest := by
  induction blanks with
  | nil => rfl
  | cons blank blanks induction =>
      have lead : Lead.ofChar blank.char = .blank := by
        rw [spaces blank List.mem_cons_self]
        decide
      rw [List.length_cons, ← Nat.add_assoc, List.cons_append, readTrees_blank lead]
      exact induction fun other member => spaces other (List.mem_cons_of_mem _ member)

theorem closeGroup_agree {delimiter : Delimiter} {body bodyTwin : List Tree}
    (same : pair.Counterpart first firstTwin) (inside : StreamAlike pair body bodyTwin)
    (respaced : Respaced pair (.group delimiter :: stack) glyphs twins) (closing : AtClosing glyphs) :
    pair.Agree (GroupAlike pair stack) (closeGroup pair.source.stop delimiter first body glyphs)
      (closeGroup pair.other.stop delimiter firstTwin bodyTwin twins) := by
  cases glyphs with
  | nil =>
      cases respaced
      exact ⟨rfl, pair.stops⟩
  | cons last behind =>
      obtain ⟨other, closes⟩ := closing last rfl
      have keeps : skips (.group delimiter :: stack) last behind = false :=
        skips_of_bracket (.inr closes)
      have code : InCode (.group delimiter :: stack) := trivial
      by_cases matched : last.char = delimiter.closing
      · obtain ⟨lastTwin, behindTwin, rfl, sameLast, more⟩ :=
          respaced.one ((step_code code).trans (inCode_closing matched)) keeps
        have matchedTwin : lastTwin.char = delimiter.closing := sameLast.char.trans matched
        rw [closeGroup, if_pos matched, closeGroup, if_pos matchedTwin]
        exact ⟨.group ⟨same.start, sameLast.stop⟩ inside, more⟩
      · obtain ⟨lastTwin, behindTwin, rfl, sameLast⟩ := respaced.exists_counterpart keeps
        have wrongTwin : lastTwin.char ≠ delimiter.closing := sameLast.char ▸ matched
        rw [closeGroup, if_neg matched, closeGroup, if_neg wrongTwin, sameLast.char]
        exact ⟨rfl, sameLast.start⟩

theorem openComment_agree {next : Glyph} (code : InCode stack)
    (respaced : Respaced pair stack (glyph :: next :: rest) twins) (angle : glyph.char = '<')
    (hash : next.char = '#') (unclosed : skipBlock? rest = none) :
    pair.Agree (ReadAlike pair stack (glyph :: next :: rest) twins)
      (.error ⟨.openComment, glyph.span.start⟩) (readTrees pair.other.stop (fuelTwin + 1) twins) := by
  have stops : inCode stack glyph (next :: rest) = _ := inCode_block angle hash
  rw [unclosed] at stops
  have stops := (step_code code).trans stops
  cases respaced with
  | stuck _ same =>
      cases same with
      | cons first later =>
          cases later with
          | cons second later =>
              rw [readTrees_block (first.char.trans angle) (second.char.trans hash),
                skipBlock_counterpart later unclosed]
              exact ⟨rfl, first.start⟩
  | moved moves split same more =>
      rw [stops] at moves
      cases moves
  | blank moves comment some spaces more =>
      rw [stops] at moves
      cases moves

section Steps

variable (agree : TreesAgree pair fuel)

include agree

/-- The rest of a stream, once both readers have passed over something. -/
theorem skipped_agree (code : InCode stack) (ready : Ready pair stack fuel fuelTwin left leftTwins)
    (before : (pair.source.placeOf glyphs).byte < (pair.source.placeOf left).byte)
    (beforeTwin : (pair.other.placeOf twins).byte < (pair.other.placeOf leftTwins).byte) :
    pair.Agree (ReadAlike pair stack glyphs twins) (readTrees pair.source.stop fuel left)
      (readTrees pair.other.stop fuelTwin leftTwins) := by
  apply (agree stack fuelTwin left leftTwins code ready).imp
  rintro ⟨trees, rest⟩ ⟨treesTwin, restTwin⟩ read readTwin alike
  refine ⟨alike.trees, ?_, alike.left⟩
  -- Neither first lexeme stands at the front any more.
  intro tree head other headTwin
  have low := le_start_of_readTrees ready.within read tree head
  have lowTwin := le_start_of_readTrees ready.withinTwin readTwin other headTwin
  constructor
  · intro start
    rw [start] at low
    omega
  · intro start
    rw [start] at lowTwin
    omega

theorem linked_agree (code : InCode stack) (ready : Ready pair stack fuel fuelTwin left leftTwins)
    (alike : Alike pair tree treeTwin)
    (span : tree.span = ⟨pair.source.placeOf glyphs, pair.source.placeOf left⟩)
    (spanTwin : treeTwin.span = ⟨pair.other.placeOf twins, pair.other.placeOf leftTwins⟩) :
    pair.Agree (ReadAlike pair stack glyphs twins)
      (do let (trees, rest) ← readTrees pair.source.stop fuel left
          return (tree.link trees, rest))
      (do let (trees, rest) ← readTrees pair.other.stop fuelTwin leftTwins
          return (treeTwin.link trees, rest)) := by
  apply (agree stack fuelTwin left leftTwins code ready).bind
  rintro ⟨trees, rest⟩ ⟨treesTwin, restTwin⟩ - - ⟨stream, first, more⟩
  have touch : Touches tree trees ↔ Touches treeTwin treesTwin := by
    cases stream with
    | nil => exact ⟨fun touches => (not_touches_nil _ touches).elim, fun touches => (not_touches_nil _ touches).elim⟩
    | @cons next nextTwin _ _ alike touch joined later =>
        rw [touches_cons, touches_cons, span, spanTwin, eq_comm, eq_comm (a := pair.other.placeOf _)]
        exact first next rfl nextTwin rfl
  refine ⟨stream.link alike touch, ?_, more⟩
  intro head isHead headTwin isHeadTwin
  obtain ⟨spacing, linked, -⟩ := exists_link tree trees
  obtain ⟨spacingTwin, linkedTwin, -⟩ := exists_link treeTwin treesTwin
  simp only [linked] at isHead
  simp only [linkedTwin] at isHeadTwin
  obtain rfl := Option.some.inj isHead
  obtain rfl := Option.some.inj isHeadTwin
  rw [span_withSpacing, span_withSpacing, span, spanTwin]
  exact ⟨fun _ => rfl, fun _ => rfl⟩

theorem group_agree {Value Other : Type} {related : Value → Other → Prop} (delimiter : Delimiter)
    (same : pair.Counterpart first firstTwin)
    (ready : Ready pair (.group delimiter :: stack) fuel fuelTwin glyphs twins)
    {continued : Tree × List Glyph → Except SyntaxError Value}
    {continuedTwin : Tree × List Glyph → Except SyntaxError Other}
    (continues : ∀ closed left closedTwin leftTwins, GroupAlike pair stack (closed, left)
        (closedTwin, leftTwins) → left <:+ glyphs → leftTwins <:+ twins →
      closed.span = ⟨first.span.start, pair.source.placeOf left⟩ →
      closedTwin.span = ⟨firstTwin.span.start, pair.other.placeOf leftTwins⟩ →
      pair.Agree related (continued (closed, left)) (continuedTwin (closedTwin, leftTwins))) :
    pair.Agree related
      (do let (body, rest) ← readTrees pair.source.stop fuel glyphs
          let read ← closeGroup pair.source.stop delimiter first body rest
          continued read)
      (do let (body, rest) ← readTrees pair.other.stop fuelTwin twins
          let read ← closeGroup pair.other.stop delimiter firstTwin body rest
          continuedTwin read) := by
  have code : InCode (.group delimiter :: stack) := trivial
  apply (agree _ fuelTwin glyphs twins code ready).bind
  rintro ⟨body, rest⟩ ⟨bodyTwin, restTwin⟩ read readTwin inside
  have closing := atClosing_of_readTrees code ready.enough read
  have behind := left_suffix ready.within read
  have behindTwin := left_suffix ready.withinTwin readTwin
  apply (closeGroup_agree same inside.trees inside.left closing).bind
  rintro ⟨closed, left⟩ ⟨closedTwin, leftTwins⟩ closes closesTwin alike
  obtain ⟨last, rfl, -, rfl⟩ := exists_of_closeGroup closes
  obtain ⟨lastTwin, rfl, -, rfl⟩ := exists_of_closeGroup closesTwin
  apply continues _ _ _ _ alike ((List.suffix_cons _ _).trans behind)
    ((List.suffix_cons _ _).trans behindTwin)
  · exact congrArg _ (Text.stop_eq_placeOf (behind.trans ready.within))
  · exact congrArg _ (Text.stop_eq_placeOf (behindTwin.trans ready.withinTwin))

/-- A comment, be it kept or blank. Of a kept one it has to be shown where it ends. -/
theorem comment_agree (code : InCode stack)
    (ready : Ready pair stack (fuel + 1) (fuelTwin + 1) (glyph :: rest) twins)
    (moves : step stack glyph rest = .ok (stack, left)) (behind : left <:+ rest)
    (ends : ∀ passed kept others, glyph :: rest = passed ++ left →
      List.Forall₂ pair.Counterpart passed kept → Respaced pair stack left others →
      readTrees pair.other.stop (fuelTwin + 1) (kept ++ others) =
        readTrees pair.other.stop fuelTwin others) :
    pair.Agree (ReadAlike pair stack (glyph :: rest) twins) (readTrees pair.source.stop fuel left)
      (readTrees pair.other.stop (fuelTwin + 1) twins) := by
  obtain ⟨skipped, rfl⟩ := behind
  have before : (pair.source.placeOf (glyph :: (skipped ++ left))).byte <
      (pair.source.placeOf left).byte := by
    have within : glyph :: skipped ++ left <:+ pair.source.glyphs := ready.within
    exact Text.placeOf_lt within (List.cons_ne_nil _ _)
  have withinLeft : left <:+ pair.source.glyphs :=
    ((List.suffix_append _ _).trans (List.suffix_cons _ _)).trans ready.within
  have enough := ready.enough
  have enoughTwin := ready.enoughTwin
  simp only [List.length_cons, List.length_append] at enough
  rcases ready.respaced.of_step moves with ⟨passed, kept, others, split, rfl, same, more⟩ |
    ⟨-, blanks, others, rfl, nonempty, spaces, more⟩
  · obtain rfl : glyph :: skipped = passed := List.append_cancel_right split
    have beforeTwin : (pair.other.placeOf (kept ++ others)).byte < (pair.other.placeOf others).byte := by
      apply Text.placeOf_lt ready.withinTwin
      intro empty
      subst empty
      cases same
    have length := same.length_eq
    simp only [List.length_cons, List.length_append] at length enoughTwin
    rw [ends _ kept others split same more]
    exact skipped_agree agree code ⟨more, withinLeft,
      (List.suffix_append _ _).trans ready.withinTwin, by omega, by omega⟩ before beforeTwin
  · have beforeTwin : (pair.other.placeOf (blanks ++ others)).byte <
        (pair.other.placeOf others).byte := Text.placeOf_lt ready.withinTwin nonempty
    rw [List.length_append] at enoughTwin
    obtain ⟨less, rest⟩ : ∃ less, fuelTwin + 1 = less + blanks.length :=
      ⟨fuelTwin + 1 - blanks.length, by omega⟩
    rw [rest, readTrees_spaces _ spaces]
    exact skipped_agree agree code ⟨more, withinLeft,
      (List.suffix_append _ _).trans ready.withinTwin, by omega, by omega⟩ before beforeTwin

theorem line_agree (code : InCode stack)
    (ready : Ready pair stack (fuel + 1) (fuelTwin + 1) (glyph :: rest) twins)
    (hash : glyph.char = '#') :
    pair.Agree (ReadAlike pair stack (glyph :: rest) twins)
      (readTrees pair.source.stop fuel (skipLine rest))
      (readTrees pair.other.stop (fuelTwin + 1) twins) := by
  apply comment_agree agree code ready ((step_code code).trans (inCode_comment hash))
    (List.dropWhile_suffix _)
  intro passed kept others split same more
  cases same with
  | nil =>
      have shorter := skipLine_length rest
      rw [← show glyph :: rest = skipLine rest from split, List.length_cons] at shorter
      omega
  | @cons _ twin skipped kept first later =>
      obtain ⟨rfl, whole⟩ := List.cons.inj split
      have lead : Lead.ofChar twin.char = .comment := by
        rw [first.char, hash]
        decide
      rw [List.cons_append, readTrees_line lead]
      apply congrArg
      apply skipLine_kept later
      · exact inLine_of_skipLine (congrArg skipLine whole.symm)
      · intro next head
        cases line : skipLine rest with
        | nil =>
            rw [line] at more
            cases more
            cases head
        | cons feed behind =>
            have newline : feed.char = '\n' := by
              have stops := List.head?_dropWhile_not (fun next : Glyph => decide (next.char ≠ '\n')) rest
              rw [show rest.dropWhile _ = feed :: behind from line] at stops
              simpa using stops
            rw [line] at more
            obtain ⟨feedTwin, behindTwin, rfl, sameFeed⟩ := more.exists_counterpart
              (skips_of_ne (by rw [newline]; decide) (by rw [newline]; decide))
            obtain rfl := Option.some.inj head
            rw [sameFeed.char, newline]

theorem block_agree {next : Glyph} (code : InCode stack)
    (ready : Ready pair stack (fuel + 1) (fuelTwin + 1) (glyph :: next :: rest) twins)
    (angle : glyph.char = '<') (hash : next.char = '#') (closed : skipBlock? rest = some left) :
    pair.Agree (ReadAlike pair stack (glyph :: next :: rest) twins)
      (readTrees pair.source.stop fuel left) (readTrees pair.other.stop (fuelTwin + 1) twins) := by
  have moves : inCode stack glyph (next :: rest) = _ := inCode_block angle hash
  rw [closed] at moves
  have behind := suffix_of_skipBlock closed
  apply comment_agree agree code ready ((step_code code).trans moves)
    (behind.trans (List.suffix_cons _ _))
  intro passed kept others split same more
  obtain ⟨comment, rfl⟩ := behind
  have whole : glyph :: next :: comment ++ left = passed ++ left := split
  obtain rfl := List.append_cancel_right whole
  cases same with
  | cons first later =>
      cases later with
      | cons second later =>
          rw [List.cons_append, List.cons_append,
            readTrees_block (first.char.trans angle) (second.char.trans hash),
            skipBlock_kept later closed]

variable (strings : StringsAgree pair fuel)

include strings

theorem string_agree {whole wholeTwin : List Glyph} (code : InCode stack) {form formTwin : Quotation}
    (forms : FormAlike pair form formTwin) (quoted : IsQuote form.quote)
    (ready : Ready pair (.string form :: stack) fuel fuelTwin glyphs twins)
    (start : form.start = pair.source.placeOf whole)
    (startTwin : formTwin.start = pair.other.placeOf wholeTwin) :
    pair.Agree (ReadAlike pair stack whole wholeTwin)
      (do let (parts, last, rest) ← readString pair.source.stop fuel form glyphs
          let (trees, rest) ← readTrees pair.source.stop fuel rest
          return (link (.string ⟨form.start, last⟩ parts) trees, rest))
      (do let (parts, last, rest) ← readString pair.other.stop fuelTwin formTwin twins
          let (trees, rest) ← readTrees pair.other.stop fuelTwin rest
          return (link (.string ⟨formTwin.start, last⟩ parts) trees, rest)) := by
  apply (strings form formTwin stack fuelTwin glyphs twins forms quoted ready).bind
  rintro ⟨parts, last, rest⟩ ⟨partsTwin, lastTwin, restTwin⟩ read readTwin alike
  obtain ⟨place, behind⟩ := last_of_readString ready.within read
  obtain ⟨placeTwin, behindTwin⟩ := last_of_readString ready.withinTwin readTwin
  apply linked_agree agree code (ready.shorter alike.left behind behindTwin)
    (.string ⟨forms.start, alike.last⟩ alike.parts)
  · rw [← start, ← place]
    rfl
  · rw [← startTwin, ← placeTwin]
    rfl

theorem trees_agree_step : TreesAgree pair (fuel + 1) := by
  intro stack fuelTwin glyphs twins code ready
  obtain ⟨fuelTwin, rfl⟩ : ∃ less, fuelTwin = less + 1 :=
    Nat.exists_eq_add_one.mpr (Nat.zero_lt_of_lt ready.enoughTwin)
  cases glyphs with
  | nil =>
      have respaced := ready.respaced
      cases respaced
      rw [readTrees_nil, readTrees_nil]
      exact ⟨.nil, (fun tree head => by cases head), .nil⟩
  | cons glyph rest =>
      have fits := Lead.fits_ofChar glyph.char
      have unmoved (glyph : Glyph) (rest : List Glyph) (plain : glyph.char ∉ marks) :
          step stack glyph rest = .ok (stack, rest) := (step_code code).trans (inCode_unmarked plain)
      cases begins glyph rest with
      | closing delimiter lead =>
          rw [lead] at fits
          have keeps : skips stack glyph rest = false := skips_of_bracket (.inr fits)
          have respaced := ready.respaced
          obtain ⟨twin, others, rfl, same⟩ := respaced.exists_counterpart keeps
          have leadTwin : Lead.ofChar twin.char = .closing delimiter := same.char ▸ lead
          rw [readTrees_closing lead, readTrees_closing leadTwin]
          exact ⟨.nil, (fun tree head => by cases head), respaced⟩
      | opening delimiter lead =>
          rw [lead] at fits
          have keeps : skips stack glyph rest = false := skips_of_bracket (.inl fits)
          obtain ⟨twin, others, rfl, same, more⟩ :=
            ready.respaced.one ((step_code code).trans (inCode_opening fits)) keeps
          have leadTwin : Lead.ofChar twin.char = .opening delimiter := same.char ▸ lead
          rw [readTrees_opening lead, readTrees_opening leadTwin]
          have inside := ready.later more (List.suffix_refl _) (List.suffix_refl _)
          apply group_agree agree delimiter same inside
          intro closed left closedTwin leftTwins alike behind behindTwin span spanTwin
          exact linked_agree agree code (inside.shorter alike.left behind behindTwin) alike.tree span
            spanTwin
      | line lead =>
          rw [lead] at fits
          rw [readTrees_line lead]
          exact line_agree agree code ready fits
      | @block next behind angle hash =>
          rw [readTrees_block angle hash]
          cases closed : skipBlock? behind with
          | none => exact openComment_agree code ready.respaced angle hash closed
          | some left => exact block_agree agree code ready angle hash closed
      | blank lead =>
          rw [lead] at fits
          have plain := not_mark_of_blank fits.1
          obtain ⟨twin, others, rfl, same, more⟩ :=
            ready.respaced.one (unmoved glyph rest plain) (skips_of_unmarked plain)
          have leadTwin : Lead.ofChar twin.char = .blank := same.char ▸ lead
          rw [readTrees_blank lead, readTrees_blank leadTwin]
          exact skipped_agree agree code (ready.later more (List.suffix_refl _) (List.suffix_refl _))
            (Text.start_lt_placeOf ready.within (List.suffix_refl _))
            (Text.start_lt_placeOf ready.withinTwin (List.suffix_refl _))
      | @here next behind lead quoted =>
          rw [lead] at fits
          have keeps : skips stack glyph (next :: behind) = false :=
            skips_of_ne (by rw [fits]; decide) (by rw [fits]; decide)
          obtain ⟨twin, nextTwin, others, rfl, same, sameNext, more⟩ :=
            ready.respaced.two ((step_code code).trans (inCode_here fits quoted)) keeps
          have leadTwin : Lead.ofChar twin.char = .atSign := same.char ▸ lead
          have quotedTwin : IsQuote nextTwin.char := sameNext.char ▸ quoted
          rw [readTrees_here lead quoted, readTrees_here leadTwin quotedTwin]
          exact string_agree agree strings code ⟨same.start, sameNext.char, rfl⟩ quoted
            (ready.later more (List.suffix_cons _ _) (List.suffix_cons _ _)) rfl rfl
      | quote lead =>
          rw [lead] at fits
          have quoted : IsQuote glyph.char := fits
          have keeps : skips stack glyph rest = false := by
            rcases quoted with single | double
            · exact skips_of_ne (by rw [single]; decide) (by rw [single]; decide)
            · exact skips_of_ne (by rw [double]; decide) (by rw [double]; decide)
          obtain ⟨twin, others, rfl, same, more⟩ :=
            ready.respaced.one ((step_code code).trans (inCode_quote quoted)) keeps
          have leadTwin : Lead.ofChar twin.char = .quote := same.char ▸ lead
          rw [readTrees_quote lead, readTrees_quote leadTwin]
          exact string_agree agree strings code ⟨same.start, same.char, rfl⟩ quoted
            (ready.later more (List.suffix_refl _) (List.suffix_refl _)) rfl rfl
      | word lead =>
          rw [lead] at fits
          have starts : startsWord glyph.char = true := fits
          have plain := not_mark_of_continues (continuesWord_of_starts starts)
          obtain ⟨twin, others, rfl, same, more⟩ :=
            ready.respaced.one (unmoved glyph rest plain) (skips_of_unmarked plain)
          have startsTwin : startsWord twin.char = true := same.char ▸ starts
          have leadTwin : Lead.ofChar twin.char = .word := same.char ▸ lead
          have inLine : glyph.char ≠ '\n' := fun newline => by rw [newline] at starts; cases starts
          obtain ⟨reads, dropped⟩ := more.reads_run (fun _ => not_mark_of_continues) (by decide)
            (by decide) unmoved ready.within ready.withinTwin same inLine
          rw [readTrees_word lead, readTrees_word leadTwin]
          exact linked_agree agree code
            (ready.later dropped (List.dropWhile_suffix _) (List.dropWhile_suffix _)) (.word reads)
            (covers_word ready.within starts).2 (covers_word ready.withinTwin startsTwin).2
      | number lead =>
          rw [lead] at fits
          have digit : Text.isDigit glyph.char = true := fits
          have plain := not_mark_of_continues (continuesWord_of_digit digit)
          obtain ⟨twin, others, rfl, same, more⟩ :=
            ready.respaced.one (unmoved glyph rest plain) (skips_of_unmarked plain)
          have digitTwin : Text.isDigit twin.char = true := same.char ▸ digit
          have leadTwin : Lead.ofChar twin.char = .number := same.char ▸ lead
          have inLine : glyph.char ≠ '\n' := fun newline => by rw [newline] at digit; cases digit
          obtain ⟨reads, dropped⟩ := more.reads_run
            (fun _ digit => not_mark_of_continues (continuesWord_of_digit digit)) (by decide)
            (by decide) unmoved ready.within ready.withinTwin same inLine
          rw [readTrees_number lead, readTrees_number leadTwin]
          exact linked_agree agree code
            (ready.later dropped (List.dropWhile_suffix _) (List.dropWhile_suffix _)) (.number reads)
            (covers_number ready.within digit).2 (covers_number ready.withinTwin digitTwin).2
      | symbol alone =>
          obtain ⟨twin, others, rfl, same, more⟩ :=
            ready.respaced.one ((step_code code).trans (inCode_symbol alone)) (skips_of_symbol alone)
          rw [readTrees_symbol alone, readTrees_symbol (more.symbolAt alone same), same.char]
          apply linked_agree agree code (ready.later more (List.suffix_refl _) (List.suffix_refl _))
            (.symbol same.toSpans same.text)
          · exact congrArg (Span.mk glyph.span.start) (Text.stop_eq_placeOf ready.within)
          · exact congrArg (Span.mk twin.span.start) (Text.stop_eq_placeOf ready.withinTwin)

theorem strings_agree_step : StringsAgree pair (fuel + 1) := by
  intro form formTwin stack fuelTwin glyphs twins forms quotes ready
  obtain ⟨fuelTwin, rfl⟩ : ∃ less, fuelTwin = less + 1 :=
    Nat.exists_eq_add_one.mpr (Nat.zero_lt_of_lt ready.enoughTwin)
  cases glyphs with
  | nil =>
      have respaced := ready.respaced
      cases respaced
      rw [readString_nil, readString_nil]
      exact ⟨rfl, forms.start⟩
  | cons glyph rest =>
      have moves {after : List Open} {left : List Glyph}
          (moved : inString form stack glyph rest = (after, left)) :
          step (.string form :: stack) glyph rest = .ok (after, left) := congrArg Except.ok moved
      have continues {left leftTwins : List Glyph}
          (ready : Ready pair (.string form :: stack) fuel fuelTwin left leftTwins) :=
        strings form formTwin stack fuelTwin left leftTwins forms quotes ready
      cases goes form glyph rest with
      | escape backtick double =>
          have doubleTwin : formTwin.quote = '"' := forms.quote.trans double
          have moved : inString form stack glyph rest = (.string form :: stack, rest.tail) :=
            inString_escape ⟨backtick, double⟩
          cases rest with
          | nil =>
              obtain ⟨twin, others, rfl, same, more⟩ := ready.respaced.one (moves moved) rfl
              have respaced := more
              cases respaced
              rw [readString_escape backtick double,
                readString_escape (same.char.trans backtick) doubleTwin]
              exact continues (ready.later more (List.suffix_refl _) (List.suffix_refl _))
          | cons next behind =>
              obtain ⟨twin, nextTwin, others, rfl, same, sameNext, more⟩ :=
                ready.respaced.two (moves moved) rfl
              rw [readString_escape backtick double,
                readString_escape (same.char.trans backtick) doubleTwin]
              exact continues (ready.later more (List.suffix_cons _ _) (List.suffix_cons _ _))
      | @close _ left last plain quoted closes =>
          obtain ⟨twin, others, rfl, same, lastTwin, leftTwins, closesTwin, place, more⟩ :=
            ready.respaced.close forms quotes (moves (inString_close plain quoted closes)) closes
          have plainTwin : ¬ (twin.char = '\x60' ∧ formTwin.quote = '"') := by
            rw [same.char, forms.quote]
            exact plain
          have quotedTwin : twin.char = formTwin.quote := by
            rw [same.char, forms.quote]
            exact quoted
          rw [readString_close plain quoted closes, readString_close plainTwin quotedTwin closesTwin]
          exact ⟨.nil, place, more⟩
      | stay plain quoted stays =>
          obtain ⟨twin, others, rfl, same, staysTwin, more⟩ :=
            ready.respaced.stay forms (moves (inString_quote plain quoted stays)) stays
          have plainTwin : ¬ (twin.char = '\x60' ∧ formTwin.quote = '"') := by
            rw [same.char, forms.quote]
            exact plain
          have quotedTwin : twin.char = formTwin.quote := by
            rw [same.char, forms.quote]
            exact quoted
          rw [readString_stay plain quoted stays, readString_stay plainTwin quotedTwin staysTwin]
          exact continues (ready.later more (suffix_afterQuote form rest)
            (suffix_afterQuote formTwin others))
      | @group next behind delimiter dollar double lead round =>
          have opens := Lead.fits_ofChar next.char
          rw [lead] at opens
          obtain ⟨twin, nextTwin, others, rfl, same, sameNext, more⟩ :=
            ready.respaced.two (moves (inString_group ⟨dollar, double⟩ opens round)) rfl
          have leadTwin : Lead.ofChar nextTwin.char = .opening delimiter := sameNext.char ▸ lead
          rw [readString_group dollar double lead round, readString_group (same.char.trans dollar)
            (forms.quote.trans double) leadTwin round]
          have inside := ready.later more (List.suffix_cons _ _) (List.suffix_cons _ _)
          apply group_agree agree delimiter sameNext inside
          intro closed left closedTwin leftTwins alike behind behindTwin span spanTwin
          apply (continues (inside.shorter alike.left behind behindTwin)).bind
          rintro ⟨parts, last, rest⟩ ⟨partsTwin, lastTwin, restTwin⟩ - - later
          exact ⟨.cons alike.tree later.parts, later.last, later.left⟩
      | @word next behind dollar double lead =>
          have starts := Lead.fits_ofChar next.char
          rw [lead] at starts
          have plain := not_mark_of_continues (continuesWord_of_starts starts)
          have unmoved (glyph : Glyph) (rest : List Glyph) (plain : glyph.char ∉ marks) :
              step (.string form :: stack) glyph rest = .ok (.string form :: stack, rest) :=
            congrArg Except.ok (inString_unmarked quotes plain)
          -- The machine passes over the dollar sign and every letter by itself.
          have passes : inString form stack glyph (next :: behind) =
              (.string form :: stack, next :: behind) := by
            apply inString_pass (not_escape_of_dollar dollar) (not_quote_of_dollar dollar double)
            intro _ other head
            obtain rfl := Option.some.inj head
            exact ⟨fun paren => plain (paren ▸ by decide), fun brace => plain (brace ▸ by decide)⟩
          obtain ⟨twin, others, rfl, same, more⟩ := ready.respaced.one (moves passes) rfl
          obtain ⟨nextTwin, behindTwin, rfl, sameNext, more⟩ := more.one (unmoved next behind plain) rfl
          have leadTwin : Lead.ofChar nextTwin.char = .word := sameNext.char ▸ lead
          have inLine : next.char ≠ '\n' := fun newline => by rw [newline] at starts; cases starts
          obtain ⟨reads, dropped⟩ := more.reads_run (fun _ => not_mark_of_continues) (by decide)
            (by decide) unmoved ((List.suffix_cons _ _).trans ready.within)
            ((List.suffix_cons _ _).trans ready.withinTwin) sameNext inLine
          rw [readString_word dollar double lead, readString_word (same.char.trans dollar)
            (forms.quote.trans double) leadTwin]
          apply (continues (ready.later dropped
            ((List.dropWhile_suffix _).trans (List.suffix_cons _ _))
            ((List.dropWhile_suffix _).trans (List.suffix_cons _ _)))).bind
          rintro ⟨parts, last, rest⟩ ⟨partsTwin, lastTwin, restTwin⟩ - - later
          exact ⟨.cons (.word reads) later.parts, later.last, later.left⟩
      | pass plain unquoted bare =>
          have passes : inString form stack glyph rest = (.string form :: stack, rest) := by
            apply inString_pass plain unquoted
            intro dollar next head
            exact ⟨(bare dollar next head).1, (bare dollar next head).2.1⟩
          obtain ⟨twin, others, rfl, same, more⟩ := ready.respaced.one (moves passes) rfl
          have plainTwin : ¬ (twin.char = '\x60' ∧ formTwin.quote = '"') := by
            rw [same.char, forms.quote]
            exact plain
          have unquotedTwin : twin.char ≠ formTwin.quote := by
            rw [same.char, forms.quote]
            exact unquoted
          have bareTwin : twin.char = '$' ∧ formTwin.quote = '"' → ∀ next ∈ others.head?,
              next.char ≠ '(' ∧ next.char ≠ '\x7b' ∧ Lead.ofChar next.char ≠ .word := by
            rw [same.char, forms.quote]
            intro dollar next head
            cases rest with
            | nil =>
                cases more
                cases head
            | cons first behind =>
                obtain ⟨nextTwin, behindTwin, rfl, sameNext⟩ := more.exists_counterpart rfl
                obtain rfl := Option.some.inj head
                rw [sameNext.char]
                exact bare dollar first rfl
          rw [readString_pass plain unquoted bare, readString_pass plainTwin unquotedTwin bareTwin]
          exact continues (ready.later more (List.suffix_refl _) (List.suffix_refl _))

end Steps

theorem readers_agree (pair : Respacing) (fuel : Nat) :
    TreesAgree pair fuel ∧ StringsAgree pair fuel := by
  induction fuel with
  | zero =>
      constructor
      · intro stack fuelTwin glyphs twins code ready
        exact absurd ready.enough (Nat.not_lt_zero _)
      · intro form formTwin stack fuelTwin glyphs twins forms quotes ready
        exact absurd ready.enough (Nat.not_lt_zero _)
  | succ fuel induction =>
      exact ⟨trees_agree_step induction.1 induction.2, strings_agree_step induction.1 induction.2⟩

/-- A text and its respaced copy are refused for the same fault, or have lexemes that are alike. -/
theorem read_agree (respaced : Respaced pair [] pair.source.glyphs pair.other.glyphs) :
    pair.Agree (StreamAlike pair) (read pair.source) (read pair.other) := by
  have code : InCode [] := trivial
  have ready : Ready pair [] (pair.source.glyphs.length + 1) (pair.other.glyphs.length + 1)
      pair.source.glyphs pair.other.glyphs :=
    ⟨respaced, List.suffix_refl _, List.suffix_refl _, Nat.lt_succ_self _, Nat.lt_succ_self _⟩
  have outcome := (readers_agree pair _).1 [] _ _ _ code ready
  unfold read
  dsimp only
  cases read : readTrees pair.source.stop (pair.source.glyphs.length + 1) pair.source.glyphs with
  | error error =>
      rw [read] at outcome
      cases readTwin : readTrees pair.other.stop (pair.other.glyphs.length + 1) pair.other.glyphs with
      | error errorTwin =>
          rw [readTwin] at outcome
          exact outcome
      | ok found =>
          rw [readTwin] at outcome
          exact outcome.elim
  | ok found =>
      obtain ⟨trees, left⟩ := found
      have closing := atClosing_of_readTrees code ready.enough read
      rw [read] at outcome
      cases readTwin : readTrees pair.other.stop (pair.other.glyphs.length + 1) pair.other.glyphs with
      | error errorTwin =>
          rw [readTwin] at outcome
          exact outcome.elim
      | ok foundTwin =>
          obtain ⟨treesTwin, leftTwins⟩ := foundTwin
          rw [readTwin] at outcome
          obtain ⟨stream, -, more⟩ := outcome
          cases left with
          | nil =>
              cases more
              exact stream
          | cons last behind =>
              obtain ⟨delimiter, closes⟩ := closing last rfl
              obtain ⟨lastTwin, behindTwin, rfl, same⟩ :=
                more.exists_counterpart (skips_of_bracket (.inr closes))
              exact ⟨congrArg Fault.strayClosing same.char, same.start⟩

end ScopeLint.Tree
