import ScopeLint.Proofs.Token.Moves
import ScopeLint.Proofs.Tree.Respacing

/-!
Classifying the lexemes of a respaced text. Lexemes that are alike make the same moves: the same
bytes are compared with the keywords, lexemes touch one another in the same places, and all else
that a move looks at is the kind of a lexeme. So the tokens of both texts are alike as well.
-/

namespace ScopeLint.Token

mutual

/-- Tokens of the same kind at places that stand for each other, with the same names and with parts
that are alike. -/
inductive Alike (pair : Respacing) : Token → Token → Prop
  | variable {span twin name nameTwin : Span} (spans : pair.Spans span twin)
      (reads : pair.Reads name nameTwin) : Alike pair (.variable span name) (.variable twin nameTwin)
  | flag {span twin name nameTwin : Span} (spans : pair.Spans span twin)
      (reads : pair.Reads name nameTwin) : Alike pair (.flag span name) (.flag twin nameTwin)
  | cmdlet {span twin : Span} (reads : pair.Reads span twin) : Alike pair (.cmdlet span) (.cmdlet twin)
  | field {span twin : Span} (reads : pair.Reads span twin) : Alike pair (.field span) (.field twin)
  | keyword {which : Keyword} {span twin : Span} (reads : pair.Reads span twin) :
      Alike pair (.keyword which span) (.keyword which twin)
  | word {span twin : Span} (reads : pair.Reads span twin) : Alike pair (.word span) (.word twin)
  | number {span twin : Span} (reads : pair.Reads span twin) : Alike pair (.number span) (.number twin)
  | string {span twin : Span} {parts others : List Token} (spans : pair.Spans span twin)
      (inside : AllAlike pair parts others) : Alike pair (.string span parts) (.string twin others)
  | group {delimiter : Delimiter} {sign : Option GroupSign} {span twin : Span}
      {body others : List Token} (spans : pair.Spans span twin) (inside : AllAlike pair body others) :
      Alike pair (.group delimiter sign span body) (.group delimiter sign twin others)
  | doubleColon {span twin : Span} (spans : pair.Spans span twin) :
      Alike pair (.doubleColon span) (.doubleColon twin)
  | symbol {char : Char} {span twin : Span} (spans : pair.Spans span twin) :
      Alike pair (.symbol char span) (.symbol char twin)

inductive AllAlike (pair : Respacing) : List Token → List Token → Prop
  | nil : AllAlike pair [] []
  | cons {token twin : Token} {rest others : List Token} (alike : Alike pair token twin)
      (more : AllAlike pair rest others) : AllAlike pair (token :: rest) (twin :: others)

end

variable {pair : Respacing} {stream : Stream} {progress progressTwin : Progress}
  {rest others trees twins : List Tree} {span twin : Span} {spacing : Spacing}

theorem Alike.kind_eq {token tokenTwin : Token} (alike : Alike pair token tokenTwin) :
    tokenTwin.kind = token.kind := by
  cases alike <;> rfl

theorem AllAlike.single {token tokenTwin : Token} (alike : Alike pair token tokenTwin) :
    AllAlike pair [token] [tokenTwin] :=
  .cons alike .nil

theorem AllAlike.append {front frontTwin behind behindTwin : List Token}
    (first : AllAlike pair front frontTwin) (second : AllAlike pair behind behindTwin) :
    AllAlike pair (front ++ behind) (frontTwin ++ behindTwin) := by
  induction front generalizing frontTwin with
  | nil =>
      cases first
      exact second
  | cons token front induction =>
      cases first with
      | cons alike more => exact .cons alike (induction more)

structure ProgressAlike (pair : Respacing) (progress twin : Progress) : Prop where
  mode : twin.mode = progress.mode
  afterClass : twin.afterClass = progress.afterClass
  atSign : Option.Rel pair.Spans progress.atSign twin.atSign

structure EffectAlike (pair : Respacing) (effect twin : Effect) : Prop where
  tokens : AllAlike pair effect.tokens twin.tokens
  mode : twin.mode = effect.mode
  skip : twin.skip = effect.skip

structure MoveAlike (pair : Respacing) (made twin : Move) : Prop where
  tokens : AllAlike pair made.tokens twin.tokens
  progress : ProgressAlike pair made.progress twin.progress
  skip : twin.skip = made.skip

theorem ProgressAlike.start (mode : Mode) : ProgressAlike pair (.start mode) (.start mode) :=
  ⟨rfl, rfl, .none⟩

theorem ProgressAlike.withMode (alike : ProgressAlike pair progress progressTwin) (mode : Mode) :
    ProgressAlike pair { progress with mode } { progressTwin with mode } :=
  ⟨rfl, alike.afterClass, alike.atSign⟩

theorem spans_sign {sign signTwin : Option Span} (signs : Option.Rel pair.Spans sign signTwin)
    (spans : pair.Spans span twin) :
    pair.Spans ((sign.map fun sign => sign.through span).getD span)
      ((signTwin.map fun sign => sign.through twin).getD twin) := by
  cases signs with
  | none => exact spans
  | some first => exact first.through spans

/-- What a run extends over is decided by its kind and spelled the same in both texts. -/
structure Runs (pair : Respacing) (continues : Tree → Bool) : Prop where
  same : ∀ tree twin, Tree.Alike pair tree twin → continues twin = continues tree
  text : ∀ tree twin, Tree.Alike pair tree twin → continues tree = true →
    pair.SameText tree.span twin.span

theorem runs_continuesName : Runs pair continuesName where
  same := by
    intro tree twin alike
    cases alike <;> rfl
  text := by
    intro tree twin alike continues
    cases alike with
    | word reads => exact reads.text
    | symbol spans text =>
        apply text
        rintro rfl
        cases continues
    | number | string | group => cases continues

theorem runs_continuesArgument : Runs pair continuesArgument where
  same := by
    intro tree twin alike
    cases alike <;> rfl
  text := by
    intro tree twin alike continues
    cases alike with
    | word reads => exact reads.text
    | symbol spans text =>
        apply text
        rintro rfl
        cases continues
    | number | string | group => cases continues

theorem run_alike {continues : Tree → Bool} (runs : Runs pair continues)
    (stream : Tree.StreamAlike pair rest others) (reads : pair.Reads span twin)
    (touches : spacing = .joined → ∃ next ∈ rest.head?, span.stop = next.span.start)
    (touchesTwin : spacing = .joined → ∃ next ∈ others.head?, twin.stop = next.span.start) :
    pair.Reads (run continues span spacing rest).1 (run continues twin spacing others).1 ∧
      (run continues twin spacing others).2 = (run continues span spacing rest).2 := by
  induction rest generalizing span twin spacing others with
  | nil =>
      cases stream
      exact ⟨reads, rfl⟩
  | cons tree rest induction =>
      cases stream with
      | @cons _ treeTwin _ others alike touch joined more =>
          rw [run, run, runs.same tree treeTwin alike]
          split
          next goes =>
            simp only [Bool.and_eq_true, decide_eq_true_eq] at goes
            obtain ⟨_, head, met⟩ := touches goes.1
            obtain rfl := Option.some.inj head
            obtain ⟨_, headTwin, metTwin⟩ := touchesTwin goes.1
            obtain rfl := Option.some.inj headTwin
            have text := reads.text.through (runs.text tree treeTwin alike goes.2) met metTwin
            have whole : pair.Reads (span.through tree.span) (twin.through treeTwin.span) :=
              ⟨reads.toSpans.through alike.spans, text⟩
            rw [alike.spacing_eq]
            obtain ⟨later, count⟩ := induction more whole joined
              fun joining => touch.mp (joined joining)
            exact ⟨later, congrArg Nat.succ count⟩
          next => exact ⟨reads, rfl⟩

theorem nextIsSymbol_alike (char : Char) (stream : Tree.StreamAlike pair rest others) :
    nextIsSymbol char others = nextIsSymbol char rest := by
  cases stream with
  | nil => rfl
  | cons alike touch joined more => cases alike <;> rfl

theorem nextWord_alike (stream : Tree.StreamAlike pair rest others) :
    Option.Rel pair.Reads (nextWord? rest) (nextWord? others) := by
  cases stream with
  | nil => exact .none
  | cons alike touch joined more =>
      cases alike with
      | word reads => exact .some reads
      | symbol | number | string | group => exact .none

theorem nextColon_alike (stream : Tree.StreamAlike pair rest others) :
    Option.Rel pair.Spans (nextColon? rest) (nextColon? others) := by
  cases stream with
  | nil => exact .none
  | cons alike touch joined more =>
      cases alike with
      | @symbol char span twin spacing spans text =>
          by_cases colon : char = ':'
          · subst colon
            exact .some spans
          · have noColon (span : Span) (trees : List Tree) :
                nextColon? (.symbol char span spacing :: trees) = none := by
              simp [nextColon?, colon]
            rw [noColon, noColon]
            exact .none
      | word | number | string | group => exact .none

theorem variableRun_alike {sign signTwin : Option Span}
    (signs : Option.Rel pair.Spans sign signTwin) (stream : Tree.StreamAlike pair trees twins) :
    AllAlike pair (variableRun sign trees).1 (variableRun signTwin twins).1 ∧
      (variableRun signTwin twins).2 = (variableRun sign trees).2 := by
  induction sign, trees using variableRun.induct generalizing signTwin twins with
  | case1 sign name colon rest tokens count run induction =>
      cases stream with
      | cons alike touch joined more =>
          cases alike with
          | word reads =>
              cases more with
              | cons alike touch joined more =>
                  cases alike with
                  | symbol spans text =>
                      obtain ⟨later, counts⟩ := induction .none more
                      rw [run] at later counts
                      simp only [variableRun, run]
                      exact ⟨.cons (.variable (spans_sign signs reads.toSpans) reads)
                        (.cons (.symbol spans) later), congrArg (· + 2) counts⟩
  | case2 sign name spacing rest other =>
      rw [variableRun_single other]
      cases stream with
      | @cons _ _ _ restTwin alike touch joined more =>
          cases alike with
          | word reads =>
              have single : ∀ (colon : Span) (later : List Tree), spacing = .joined →
                  restTwin = .symbol ':' colon .joined :: later → False := by
                rintro colon later joining rfl
                cases more with
                | cons alike touch joined more =>
                    cases alike with
                    | symbol spans text => exact other _ _ joining rfl
              rw [variableRun_single single]
              exact ⟨.single (.variable (spans_sign signs reads.toSpans) reads), rfl⟩
  | case3 trees sign other =>
      have noRun : variableRun sign trees = ([], 0) := by
        rw [variableRun]
        exact other
      rw [noRun]
      cases stream with
      | nil => exact ⟨.nil, rfl⟩
      | cons alike touch joined more =>
          cases alike with
          | word reads => exact absurd rfl (other _ _ _)
          | symbol | number | string | group => exact ⟨.nil, rfl⟩

theorem otherEffect_alike (stream : Stream) (mode : Mode) (char : Char) (spacing : Spacing)
    (spans : pair.Spans span twin) {word wordTwin colon colonTwin : Option Span}
    (words : Option.Rel pair.Reads word wordTwin) (colons : Option.Rel pair.Spans colon colonTwin) :
    EffectAlike pair (otherEffect stream mode char span spacing word colon)
      (otherEffect stream mode char twin spacing wordTwin colonTwin) := by
  have plain (mode : Mode) : EffectAlike pair ⟨[.symbol char span], mode, 0⟩
      ⟨[.symbol char twin], mode, 0⟩ := ⟨.single (.symbol spans), rfl, rfl⟩
  unfold otherEffect
  dsimp only
  split
  · cases spacing with
    | alone => exact plain mode
    | joined =>
        cases words with
        | none => exact plain mode
        | some reads => exact ⟨.single (.flag (spans.through reads.toSpans) reads), rfl, rfl⟩
  · cases spacing with
    | alone => exact plain mode
    | joined =>
        cases colons with
        | none => exact plain mode
        | some second => exact ⟨.single (.doubleColon (spans.through second)), rfl, rfl⟩
  all_goals exact plain _

theorem ofSymbol_agree (stream : Stream) (mode : Mode) (char : Char) (spacing : Spacing)
    (spans : pair.Spans span twin) (later : Tree.StreamAlike pair rest others) :
    pair.Agree (EffectAlike pair) (ofSymbol stream mode char span spacing rest)
      (ofSymbol stream mode char twin spacing others) := by
  have words := nextWord_alike later
  have present := Option.isSome_of_rel words
  obtain ⟨names, counts⟩ := variableRun_alike (.some spans) later
  rw [ofSymbol_eq, ofSymbol_eq, nextIsSymbol_alike '\n' later, present]
  split
  next =>
    split
    next => exact ⟨.nil, rfl, rfl⟩
    next => exact ⟨rfl, spans.start⟩
  next =>
    split
    next => exact ⟨.single (.symbol spans), rfl, rfl⟩
    next =>
      split
      next => exact ⟨.single (.symbol spans), rfl, rfl⟩
      next =>
        split
        next => exact ⟨names, rfl, counts⟩
        next => exact otherEffect_alike stream mode char spacing spans words (nextColon_alike later)

theorem ofCommand_alike (reads : pair.Reads span twin) :
    Alike pair (ofCommand pair.source span) (ofCommand pair.other twin) := by
  unfold ofCommand
  dsimp only
  rw [reads.text.slice_eq]
  split
  next => exact .keyword reads
  next =>
    split
    next => exact .keyword reads
    next =>
      split
      next => exact .keyword reads
      next => exact .cmdlet reads

theorem ProgressAlike.afterCommand {token tokenTwin : Token}
    (alike : ProgressAlike pair progress progressTwin) (tokens : Alike pair token tokenTwin) :
    ProgressAlike pair (progress.afterCommand token) (progressTwin.afterCommand tokenTwin) := by
  cases tokens with
  | @keyword which span twin reads =>
      cases which with
      | classWord => exact ⟨rfl, rfl, alike.atSign⟩
      | function | «return» | «in» => exact alike
  | cmdlet reads => exact alike.withMode .argument
  | _ => exact alike

theorem moveWord_alike (alike : ProgressAlike pair progress progressTwin)
    (reads : pair.Reads span twin) (later : Tree.StreamAlike pair rest others)
    (touches : spacing = .joined → ∃ next ∈ rest.head?, span.stop = next.span.start)
    (touchesTwin : spacing = .joined → ∃ next ∈ others.head?, twin.stop = next.span.start) :
    MoveAlike pair (moveWord pair.source progress span spacing rest)
      (moveWord pair.other progressTwin twin spacing others) := by
  unfold moveWord
  rw [alike.mode]
  split
  next => exact ⟨.single (.field reads), alike.withMode .argument, rfl⟩
  next => exact ⟨.single (.field reads), alike.withMode .argument, rfl⟩
  next =>
    rw [commandRun_eq, commandRun_eq]
    obtain ⟨whole, count⟩ := run_alike runs_continuesName later reads touches touchesTwin
    have command := ofCommand_alike whole
    exact ⟨.single command, alike.afterCommand command, count⟩
  next =>
    rw [reads.text.slice_eq]
    split
    next => exact ⟨.single (.keyword reads), alike.withMode .function, rfl⟩
    next =>
      rw [argumentRun_eq, argumentRun_eq]
      obtain ⟨whole, count⟩ := run_alike runs_continuesArgument later reads touches touchesTwin
      exact ⟨.single (.word whole), alike, count⟩

theorem marksGroup_alike {char : Char}
    (touch : Tree.Touches (.symbol char span spacing) rest ↔
      Tree.Touches (.symbol char twin spacing) others)
    (later : Tree.StreamAlike pair rest others) :
    marksGroup char twin others = marksGroup char span rest := by
  cases later with
  | nil => rfl
  | cons alike touchNext joined more =>
      rw [Tree.touches_cons, Tree.touches_cons] at touch
      cases alike with
      | @group delimiter next nextTwin body bodyTwin spans inside =>
          have same : span.stop = next.start ↔ twin.stop = nextTwin.start := touch
          simp only [marksGroup, same]
      | word | symbol | number | string => rfl

theorem moveSymbol_agree (stream : Stream) {char : Char}
    (alike : ProgressAlike pair progress progressTwin) (spans : pair.Spans span twin)
    (touch : Tree.Touches (.symbol char span spacing) rest ↔
      Tree.Touches (.symbol char twin spacing) others)
    (later : Tree.StreamAlike pair rest others) :
    pair.Agree (MoveAlike pair) (moveSymbol stream progress char span spacing rest)
      (moveSymbol stream progressTwin char twin spacing others) := by
  unfold moveSymbol
  rw [marksGroup_alike touch later]
  split
  next => exact ⟨.nil, ⟨alike.mode, alike.afterClass, .some spans⟩, rfl⟩
  next =>
    rw [alike.mode]
    apply (ofSymbol_agree stream progress.mode char spacing spans later).bind
    rintro effect effectTwin - - made
    exact ⟨made.tokens, ⟨made.mode, alike.afterClass, alike.atSign⟩, made.skip⟩

theorem innerMode_alike (alike : ProgressAlike pair progress progressTwin) (delimiter : Delimiter) :
    innerMode stream progressTwin delimiter = innerMode stream progress delimiter := by
  rw [innerMode, innerMode, Option.isSome_of_rel alike.atSign, alike.afterClass]

theorem groupToken_alike (alike : ProgressAlike pair progress progressTwin) (delimiter : Delimiter)
    (spans : pair.Spans span twin) {body bodyTwin : List Token} (inside : AllAlike pair body bodyTwin) :
    Alike pair (groupToken progress delimiter span body)
      (groupToken progressTwin delimiter twin bodyTwin) := by
  have whole := spans_sign alike.atSign spans
  have signs := alike.atSign
  unfold groupToken
  cases sign : progress.atSign with
  | none =>
      rw [sign] at whole signs
      cases signTwin : progressTwin.atSign with
      | none =>
          rw [signTwin] at whole
          exact .group whole inside
      | some first =>
          rw [signTwin] at signs
          cases signs
  | some first =>
      rw [sign] at whole signs
      cases signTwin : progressTwin.atSign with
      | none =>
          rw [signTwin] at signs
          cases signs
      | some second =>
          rw [signTwin] at whole
          exact .group whole inside

theorem move_agree {tree treeTwin : Tree} (alike : ProgressAlike pair progress progressTwin)
    (trees : Tree.StreamAlike pair (tree :: rest) (treeTwin :: others))
    (inside : ∀ stream, pair.Agree (AllAlike pair) (classifyInside pair.source stream tree)
      (classifyInside pair.other stream treeTwin)) :
    pair.Agree (MoveAlike pair) (move pair.source stream progress tree rest)
      (move pair.other stream progressTwin treeTwin others) := by
  cases trees with
  | cons same touch joined later =>
      cases same with
      | word reads =>
          exact moveWord_alike alike reads later joined fun joining => touch.mp (joined joining)
      | symbol spans text => exact moveSymbol_agree stream alike spans touch later
      | number reads => exact ⟨.single (.number reads), alike.withMode .argument, rfl⟩
      | string spans parts =>
          apply (inside stream).bind
          rintro tokens tokensTwin - - held
          exact ⟨.single (.string spans held), alike.withMode .argument, rfl⟩
      | @group delimiter _ _ _ _ spans body =>
          rw [move, move, innerMode_alike alike]
          apply (inside _).bind
          rintro tokens tokensTwin - - held
          exact ⟨.single (groupToken_alike alike delimiter spans held),
            ⟨alike.mode, rfl, .none⟩, rfl⟩

mutual

theorem classifyInside_agree (tree : Tree) {treeTwin : Tree} (alike : Tree.Alike pair tree treeTwin)
    (stream : Stream) : pair.Agree (AllAlike pair) (classifyInside pair.source stream tree)
      (classifyInside pair.other stream treeTwin) := by
  cases tree with
  | word | symbol | number =>
      cases alike
      rw [classifyInside, classifyInside]
      · exact .nil
      all_goals simp
  | string span parts =>
      cases alike with
      | string spans inside =>
          rw [classifyInside, classifyInside]
          exact interpolate_agree parts inside
  | group delimiter span body =>
      cases alike with
      | group spans inside =>
          rw [classifyInside, classifyInside]
          exact classify_agree body inside stream (.start stream.start) 0

theorem classify_agree (trees : List Tree) {twins : List Tree}
    (alike : Tree.StreamAlike pair trees twins) (stream : Stream) {progress progressTwin : Progress}
    (seen : ProgressAlike pair progress progressTwin) (skip : Nat) :
    pair.Agree (AllAlike pair) (classify pair.source stream progress skip trees)
      (classify pair.other stream progressTwin skip twins) := by
  cases trees with
  | nil =>
      cases alike
      rw [classify_nil, classify_nil]
      exact .nil
  | cons tree rest =>
      have whole := alike
      cases alike with
      | cons first touch joined later =>
          cases skip with
          | succ skip =>
              rw [classify_skip, classify_skip]
              exact classify_agree rest later stream seen skip
          | zero =>
              rw [classify_cons, classify_cons]
              apply (move_agree seen whole (classifyInside_agree tree first)).bind
              rintro made madeTwin - - moves
              rw [moves.skip]
              apply (classify_agree rest later stream moves.progress made.skip).bind
              rintro tokens tokensTwin - - held
              exact moves.tokens.append held

theorem interpolate_agree (trees : List Tree) {twins : List Tree}
    (alike : Tree.PartsAlike pair trees twins) :
    pair.Agree (AllAlike pair) (interpolate pair.source trees) (interpolate pair.other twins) := by
  cases trees with
  | nil =>
      cases alike
      rw [interpolate, interpolate]
      exact .nil
  | cons tree rest =>
      cases alike with
      | cons first later =>
          have others := interpolate_agree rest later
          cases tree with
          | word span spacing =>
              cases first with
              | word reads =>
                  rw [interpolate, interpolate]
                  apply others.bind
                  rintro tokens tokensTwin - - held
                  exact .cons (.variable reads.toSpans reads) held
          | symbol | number | string =>
              have place := first.spans.start
              cases first
              simp only [interpolate]
              exact ⟨rfl, place⟩
          | group delimiter span body =>
              have inside := classifyInside_agree (.group delimiter span body) first
              cases first with
              | @group _ _ _ _ bodyTwin spans held =>
                  cases delimiter with
                  | paren =>
                      rw [interpolate, interpolate]
                      apply (inside _).bind
                      rintro tokens tokensTwin - - held
                      apply others.bind
                      rintro more moreTwin - - alike
                      exact .cons (.group spans held) alike
                  | brace =>
                      obtain ⟨names, counts⟩ := variableRun_alike .none held
                      rw [interpolate, interpolate]
                      dsimp only
                      rw [counts]
                      -- What is left behind the names, if anything, starts at the same place.
                      have left := held.drop (variableRun none body).2
                      generalize body.drop (variableRun none body).2 = extra at left ⊢
                      generalize bodyTwin.drop (variableRun none body).2 = extraTwin at left ⊢
                      cases left with
                      | nil =>
                          apply others.bind
                          rintro tokens tokensTwin - - alike
                          exact .cons (.group spans names) alike
                      | cons alike touch joined more => exact ⟨rfl, alike.spans.start⟩
                  | bracket =>
                      simp only [interpolate]
                      exact ⟨rfl, spans.start⟩

end

/-- A text and its respaced copy are refused for the same fault, or have tokens that are alike. -/
theorem read_agree (respaced : Tree.Respaced pair [] pair.source.glyphs pair.other.glyphs) :
    pair.Agree (AllAlike pair) (read pair.source) (read pair.other) := by
  apply (Tree.read_agree respaced).bind
  rintro trees twins - - alike
  exact classify_agree trees alike .file (.start .function) 0

mutual

theorem Alike.innerStreams {token tokenTwin : Token} (alike : Alike pair token tokenTwin) :
    List.Forall₂ (AllAlike pair) token.innerStreams tokenTwin.innerStreams := by
  match alike with
  | .string _ .nil => exact .nil
  | .string _ (.cons first more) =>
      exact .cons (.cons first more) (AllAlike.innerStreams (.cons first more))
  | .group _ .nil => exact .nil
  | .group _ (.cons first more) =>
      exact .cons (.cons first more) (AllAlike.innerStreams (.cons first more))
  | .variable _ _ | .flag _ _ | .cmdlet _ | .field _ | .keyword _ | .word _ | .number _
  | .doubleColon _ | .symbol _ => exact .nil

theorem AllAlike.innerStreams {tokens twins : List Token} (alike : AllAlike pair tokens twins) :
    List.Forall₂ (AllAlike pair) (innerStreamsOf tokens) (innerStreamsOf twins) := by
  match alike with
  | .nil => exact .nil
  | .cons first more => exact List.rel_append first.innerStreams more.innerStreams

end

theorem AllAlike.streams {tokens twins : List Token} (alike : AllAlike pair tokens twins) :
    List.Forall₂ (AllAlike pair) (Token.streams tokens) (Token.streams twins) :=
  .cons alike alike.innerStreams

end ScopeLint.Token
