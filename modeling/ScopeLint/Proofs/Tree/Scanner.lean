import ScopeLint.Proofs.Source.Lookahead
import ScopeLint.Tree.Scanner

/-!
What a scanner comes to. It knows of a text only what its reader answers, so two readers that answer alike
lead it alike.
-/

namespace ScopeLint.Tree

open CharReader

section Parallel

variable {Left Right Value Other : Type} {related : Left → Right → Prop}

/-- Two programs that come to the same from readers that are related, and leave related readers. -/
def Parallel (related : Left → Right → Prop) (program : StateM Left Value)
    (twin : StateM Right Value) : Prop :=
  ∀ left right, related left right →
    (program left).1 = (twin right).1 ∧ related (program left).2 (twin right).2

theorem Parallel.pure (value : Value) :
    Parallel related (Pure.pure value : StateM Left Value) (Pure.pure value : StateM Right Value) :=
  fun _ _ start => ⟨rfl, start⟩

theorem Parallel.bind {program : StateM Left Value} {twin : StateM Right Value}
    {continues : Value → StateM Left Other} {continuesTwin : Value → StateM Right Other}
    (first : Parallel related program twin)
    (second : ∀ value, Parallel related (continues value) (continuesTwin value)) :
    Parallel related (program >>= continues) (twin >>= continuesTwin) := by
  intro left right start
  obtain ⟨same, later⟩ := first left right start
  have outcome := second (program left).1 (program left).2 (twin right).2 later
  change (continues (program left).1 (program left).2).1 =
      (continuesTwin (twin right).1 (twin right).2).1 ∧
    related (continues (program left).1 (program left).2).2 (continuesTwin (twin right).1 (twin right).2).2
  rwa [← same]

theorem Parallel.ite {condition : Prop} [Decidable condition] {program other : StateM Left Value}
    {twin otherTwin : StateM Right Value} (holds : Parallel related program twin)
    (fails : Parallel related other otherTwin) :
    Parallel related (if condition then program else other) (if condition then twin else otherTwin) := by
  by_cases decided : condition
  · rwa [if_pos decided, if_pos decided]
  · rwa [if_neg decided, if_neg decided]

variable [CharReader Left] [CharReader Right]

/-- Related readers give the same answers and stay related. -/
structure SameAnswers (related : Left → Right → Prop) : Prop where
  peek : Parallel related peek peek
  peekSecond : Parallel related peekSecond peekSecond
  next : Parallel related next next
  place : Parallel related place place

variable (same : SameAnswers related)

include same

theorem SameAnswers.ofChar (char : Char) : Parallel related (Job.ofChar char) (Job.ofChar char) := by
  unfold Job.ofChar
  cases Lead.ofChar char with
  | number => exact .bind same.place fun _ => .pure _
  | blank => exact .bind same.next fun _ => .pure _
  | other => exact .ite (.bind same.peekSecond fun _ => .ite (.pure _) (.pure _)) (.pure _)
  | _ => exact .pure _

theorem SameAnswers.afterQuote (literal : OpenString) (quote : Glyph) :
    Parallel related (literal.afterQuote quote) (literal.afterQuote quote) := by
  unfold OpenString.afterQuote
  refine .ite (.ite (.bind same.peek fun _ => .ite ?_ (.pure _)) (.pure _)) ?_
  · exact .bind same.next fun _ => .bind same.place fun _ => .pure _
  · refine .bind same.peek fun _ => .ite (.bind same.next fun _ => .pure _) ?_
    exact .bind same.place fun _ => .pure _

theorem SameAnswers.after (literal : OpenString) (glyph : Glyph) :
    Parallel related (literal.after glyph) (literal.after glyph) := by
  refine .ite (.bind same.next fun _ => .pure _) (.ite (same.afterQuote literal glyph) (.ite ?_ (.pure _)))
  refine .bind same.peek fun char => ?_
  cases char with
  | none => exact .pure _
  | some char => exact .ite (.pure _) (.ite (.pure _) (.pure _))

theorem SameAnswers.close (activity : Activity) : Parallel related activity.close activity.close := by
  unfold Activity.close
  cases activity.groups with
  | nil =>
      refine .bind same.next fun last => ?_
      cases last <;> exact .pure _
  | cons opened groups =>
      refine .bind same.next fun last => ?_
      cases last with
      | none => exact .bind same.place fun _ => .pure _
      | some last => exact .ite (.pure _) (.pure _)

theorem SameAnswers.step (activity : Activity) : Parallel related activity.step activity.step := by
  unfold Activity.step
  cases activity.job with
  | stream => exact .pure _
  | lexeme =>
      refine .bind same.peek fun char => ?_
      cases char with
      | none => exact .pure _
      | some char => exact .bind (same.ofChar char) fun _ => .pure _
  | group within =>
      refine .bind same.next fun first => ?_
      dsimp only
      cases Lead.ofChar (first.getD .missing).char <;> exact .pure _
  | symbol => exact .bind same.next fun _ => .pure _
  | word within => exact .bind same.place fun _ => .bind same.next fun _ => .pure _
  | letters within start | digits start =>
      refine .bind same.peek fun _ => .ite (.bind same.next fun _ => .pure _) ?_
      exact .bind same.place fun _ => .pure _
  | line => exact .bind same.peek fun _ => .ite (.pure _) (.bind same.next fun _ => .pure _)
  | block => exact .bind same.place fun _ => .bind same.next fun _ => .bind same.next fun _ => .pure _
  | comment start =>
      refine .bind same.next fun glyph => ?_
      cases glyph with
      | none => exact .pure _
      | some glyph =>
          exact .ite (.bind same.peek fun _ => .ite (.bind same.next fun _ => .pure _) (.pure _)) (.pure _)
  | sign => exact .bind same.next fun _ => .bind same.peek fun _ => .ite (.pure _) (.pure _)
  | quote sign => exact .bind same.place fun _ => .bind same.next fun _ => .pure _
  | string literal =>
      refine .bind same.next fun glyph => ?_
      cases glyph with
      | none => exact .pure _
      | some glyph => exact .bind (same.after literal glyph) fun _ => .pure _
  | made within tree => cases within <;> exact .pure _
  | ended => exact same.close activity

end Parallel

/-- A reader that decodes as it goes answers like one that has all characters at hand. -/
theorem sameAnswers_tracks (source : Text) :
    SameAnswers fun (ahead : Lookahead) (cursor : Cursor) =>
      ahead.Tracks source cursor.rest ∧ cursor.stop = source.stop := by
  constructor
  · rintro ahead ⟨left, stop⟩ ⟨tracks, rfl⟩
    obtain ⟨same, later⟩ := tracks.answer .peek
    exact ⟨Lookahead.Answer.char.inj same, later, rfl⟩
  · rintro ahead ⟨left, stop⟩ ⟨tracks, rfl⟩
    obtain ⟨same, later⟩ := tracks.answer .second
    exact ⟨Lookahead.Answer.char.inj same, later, rfl⟩
  · rintro ahead ⟨left, stop⟩ ⟨tracks, rfl⟩
    obtain ⟨same, later⟩ := tracks.answer .next
    refine ⟨(Lookahead.Answer.glyph.inj same).trans ?_, later, rfl⟩
    cases left <;> rfl
  · rintro ahead ⟨left, stop⟩ ⟨tracks, rfl⟩
    obtain ⟨same, later⟩ := tracks.answer .location
    exact ⟨Lookahead.Answer.place.inj same, later, rfl⟩

namespace Scanner

/-- Two scanners of one text that have come equally far, one of them with all characters at hand. -/
structure InStep (source : Text) (scanner : Scanner Lookahead) (twin : Scanner Cursor) : Prop where
  phase : scanner.phase = twin.phase
  tracks : scanner.reader.Tracks source twin.reader.rest
  stop : twin.reader.stop = source.stop

variable {source : Text}

theorem InStep.advance {scanner : Scanner Lookahead} {twin : Scanner Cursor}
    (inStep : InStep source scanner twin) : InStep source scanner.advance twin.advance := by
  obtain ⟨phase, reader⟩ := scanner
  obtain ⟨twinPhase, cursor⟩ := twin
  obtain ⟨same, tracks, stop⟩ := inStep
  obtain rfl : phase = twinPhase := same
  cases phase with
  | reading activity =>
      obtain ⟨same, tracks, stop⟩ := (sameAnswers_tracks source).step activity _ _ ⟨tracks, stop⟩
      exact ⟨same, tracks, stop⟩
  | finished outcome => exact ⟨rfl, tracks, stop⟩
  | broken char => exact ⟨rfl, tracks, stop⟩

theorem inStep_scan (source : Text) (count : Nat) :
    InStep source (scan (Lookahead.ofText source) count) (scan (Cursor.ofText source) count) := by
  induction count with
  | zero => exact ⟨rfl, Lookahead.tracks_ofText source, rfl⟩
  | succ count induction => exact induction.advance

end Scanner

end ScopeLint.Tree
