import ScopeLint.CommandLine.Run
import ScopeLint.Proofs.Script.Columns

/-!
The carets under a shown line. They start under the first character of their region, in whatever columns
the tabs in front of it are shown. There are as many as the region has characters, so they end under its
last character unless it has tabs: each of these is shown in four columns and gets one caret.
-/

namespace ScopeLint

namespace Snippet

open Text

def shownChar (char : Char) : List Char := if char = '\t' then [' ', ' ', ' ', ' '] else [char]

def shown (chars : List Char) : List Char := chars.flatMap shownChar

theorem shown_append (front behind : List Char) : shown (front ++ behind) = shown front ++ shown behind :=
  List.flatMap_append

theorem length_shown (chars : List Char) : (shown chars).length = chars.length + 3 * chars.count '\t' := by
  induction chars with
  | nil => rfl
  | cons char rest induction =>
      rw [shown] at induction
      rw [shown, List.flatMap_cons, List.length_append, induction, List.length_cons, List.count_cons]
      unfold shownChar
      by_cases tab : char = '\t'
      · simp only [tab, if_true, List.length_cons, List.length_nil, beq_self_eq_true]
        omega
      · simp only [tab, if_false, List.length_singleton, beq_iff_eq]
        omega

theorem displayWidth_eq (chars : List Char) : displayWidth chars = (shown chars).length := by
  induction chars with
  | nil => rfl
  | cons char rest induction =>
      rw [shown] at induction
      rw [displayWidth, List.foldr_cons, ← displayWidth, induction, shown, List.flatMap_cons,
        List.length_append]
      unfold charWidth shownChar
      split <;> rfl

theorem expandTabs_plain {line : Text} (plain : Text.byte '\t' ∉ line) : expandTabs line = line := by
  induction line with
  | nil => rfl
  | cons byte rest induction =>
      have other : byte ≠ 0x09 := fun same => plain (same ▸ List.mem_cons_self)
      have later := induction fun member => plain (List.mem_cons_of_mem _ member)
      rw [expandTabs] at later
      rw [expandTabs, List.flatMap_cons, if_neg other, later, List.singleton_append]

theorem shown_plain {line : Text} (plain : Text.byte '\t' ∉ line) : shown line.chars = line.chars := by
  have untabbed := char_ne_of_not_mem ⟨by decide, by decide⟩ plain
  rw [chars]
  generalize line.pieces = pieces at untabbed
  induction pieces with
  | nil => rfl
  | cons piece rest induction =>
      have other := untabbed piece List.mem_cons_self
      have later := induction fun next member => untabbed next (List.mem_cons_of_mem _ member)
      rw [shown] at later
      rw [shown, List.map_cons, List.flatMap_cons, later, shownChar, if_neg other, List.singleton_append]

theorem chars_expandTabs (line : Text) : (expandTabs line).chars = shown line.chars := by
  have ascii : IsAscii '\t' := ⟨by decide, by decide⟩
  generalize size : line.length = length
  -- On the length, the line being cut at its first tab.
  induction length using Nat.strong_induction_on generalizing line with
  | _ length induction =>
      by_cases tab : Text.byte '\t' ∈ line
      · obtain ⟨front, behind, rfl, plain⟩ := List.eq_append_cons_of_mem tab
        have fewer : behind.length < length := by
          rw [List.length_append, List.length_cons] at size
          omega
        have later := induction behind.length fewer behind rfl
        have blanks : expandTabs (front ++ Text.byte '\t' :: behind) =
            front ++ Text.byte ' ' :: (0x20 :: 0x20 :: 0x20 :: expandTabs behind) := by
          have front_eq := expandTabs_plain plain
          rw [expandTabs] at front_eq
          rw [expandTabs, List.flatMap_append, front_eq]
          rfl
        rw [blanks, chars, pieces_mark ⟨by decide, by decide⟩, pieces_single (by decide),
          pieces_single (by decide), pieces_single (by decide)]
        rw [chars, pieces_mark ascii, List.map_append, List.map_append, shown_append]
        have front_eq := shown_plain plain
        rw [chars] at front_eq later
        rw [front_eq]
        simp only [List.map_cons, later]
        rfl
      · rw [expandTabs_plain tab, shown_plain tab]

def readPath (region : Region) : Text := if region.path = [] then region.file else region.path

def shownLine (source : Text → Option Text) (region : Region) : Text :=
  if region.line = 0 || readPath region = [] then []
  else ((source (readPath region)).map fun text => sourceLine text region.line).getD []

/-- The lines that show a region, with some carets in some column. The margins in front of the shown line
and of the carets have the same width. -/
def withCarets (colored : Bool) (region : Region) (line : Text) (indent count : Nat) : Text :=
  let style := fun style : Style => style.when colored
  let number := Text.ofNat region.line
  let blank := gutter colored (Text.spaces number.length)
  let label : Text := if region.label = [] then []
    else " " ++ style .boldRed ++ region.label ++ style .reset
  "  " ++ style .boldBlue ++ "-->" ++ style .reset ++ " " ++ place region ++ "\n"
    ++ blank ++ "\n"
    ++ gutter colored number ++ "  " ++ expandTabs line ++ "\n"
    ++ blank ++ "  " ++ Text.spaces indent ++ style .boldRed
    ++ List.replicate count (Text.byte '^') ++ style .reset ++ label ++ "\n"
    ++ blank ++ "\n"

variable {colored : Bool} {source : Text → Option Text} {line : Text} {region : Region}

theorem renderRegion_eq (shows : shownLine source region = line) (nonempty : line ≠ []) :
    renderRegion colored source region =
      withCarets colored region line (caretIndent line.chars (underline line.chars region).1)
        ((underline line.chars region).2 - (underline line.chars region).1) := by
  subst shows
  rw [renderRegion]
  exact if_neg nonempty

/-- A region on one line, over characters of the line that it is shown in. -/
structure Within (source : Text → Option Text) (line : Text) (region : Region) : Prop where
  shows : shownLine source region = line
  single : region.endLine ≤ region.line
  first : 1 ≤ region.col
  filled : region.col < region.endCol
  last : region.endCol ≤ line.chars.length + 1

theorem Within.nonempty (within : Within source line region) : line ≠ [] := by
  rintro rfl
  have last : region.endCol ≤ 1 := within.last
  have first := within.first
  have filled := within.filled
  omega

structure Parts (line : Text) (region : Region) (before inside behind : List Char) : Prop where
  split : line.chars = before ++ (inside ++ behind)
  front : before.length = region.col - 1
  width : inside.length = region.endCol - region.col

theorem Parts.inside_eq {before inside behind : List Char} (parts : Parts line region before inside behind) :
    inside = (line.chars.drop (region.col - 1)).take (region.endCol - region.col) := by
  rw [parts.split, List.drop_left' parts.front, List.take_left' parts.width]

theorem Within.exists_parts (within : Within source line region) :
    ∃ before inside behind, Parts line region before inside behind := by
  have first := within.first
  have filled := within.filled
  have last := within.last
  refine ⟨line.chars.take (region.col - 1),
    (line.chars.drop (region.col - 1)).take (region.endCol - region.col),
    (line.chars.drop (region.col - 1)).drop (region.endCol - region.col), ?_, ?_, ?_⟩
  · rw [List.take_append_drop, List.take_append_drop]
  · rw [List.length_take]
    omega
  · rw [List.length_take, List.length_drop]
    omega

variable {before inside behind : List Char}

theorem Within.renderRegion_eq (within : Within source line region)
    (parts : Parts line region before inside behind) :
    renderRegion colored source region =
      withCarets colored region line (shown before).length inside.length := by
  have nonempty := within.nonempty
  obtain ⟨shows, single, first, filled, last⟩ := within
  have given : ¬ region.endCol = 0 := by omega
  have columns : underline line.chars region = (region.col, region.endCol) := by
    simp only [underline, Nat.max_eq_left first, if_neg (Nat.not_lt.mpr single), if_neg given,
      if_neg (Nat.not_le.mpr filled)]
  have indent : caretIndent line.chars region.col = (shown before).length := by
    rw [caretIndent, parts.split, if_pos, ← parts.front, List.take_left, displayWidth_eq]
    rw [List.length_append, parts.front]
    exact Nat.le_add_right _ _
  rw [Snippet.renderRegion_eq shows nonempty, columns, indent, parts.width]

theorem withCarets_injective {indent count other : Nat}
    (same : withCarets colored region line indent count = withCarets colored region line indent other) :
    count = other := by
  -- What follows the carets: the end of their colour, the label, and the last line.
  have ending := List.append_cancel_right (List.append_cancel_right (List.append_cancel_right same))
  have carets := List.append_cancel_left (List.append_cancel_right (List.append_cancel_right ending))
  have length := congrArg List.length carets
  rwa [List.length_replicate, List.length_replicate] at length

/-- What is shown of a source that can be read is the line with the number of the region, or nothing. -/
theorem shownLine_eq {text : Text} (reads : source (readPath region) = some text)
    (shows : shownLine source region ≠ []) :
    shownLine source region = text.dropMark.numberedLine region.line := by
  rw [shownLine] at shows ⊢
  split at shows
  next => exact absurd rfl shows
  next given =>
    rw [reads] at shows
    rw [if_neg given, reads]
    exact (sourceLine_cases text region.line).resolve_left shows

/-- The region that a finding about a part of a script is shown with lies in its line, if that is shown. -/
theorem within_of_span {text : Text} {script : Script} {diagnostic : Diagnostic}
    (accepted : Script.read text = .ok script) (among : diagnostic.span ∈ script.spans)
    (single : diagnostic.span.start.line = diagnostic.span.stop.line)
    (placed : diagnostic.isWholeFile = false)
    (member : region ∈ (CommandLine.snippetOf diagnostic).regions)
    (reads : source (readPath region) = some text) (shows : shownLine source region ≠ []) :
    Within source (shownLine source region) region := by
  obtain ⟨line, first, filled, last⟩ := Script.spans_inLine accepted _ among single
  rw [CommandLine.snippetOf, placed] at member
  obtain rfl := List.mem_singleton.mp member
  have same := shownLine_eq reads shows
  refine ⟨rfl, ?_, ?_, ?_, ?_⟩
  · exact (congrArg Int.toNat single).ge
  · change 1 ≤ diagnostic.span.start.col.toNat
    omega
  · change diagnostic.span.start.col.toNat < diagnostic.span.stop.col.toNat
    omega
  · rw [same]
    change diagnostic.span.stop.col.toNat ≤
      (text.dropMark.numberedLine diagnostic.span.start.line.toNat).chars.length + 1
    omega

/-- The carets under a region on one line start in the column in which its first character is shown. There
is one for each of its characters, so exactly what is shown of the region is underlined just if it has no
tab. This is about every region over characters of its line, and those of findings about a part of a
script are such. -/
theorem carets_start_under_text (colored : Bool) (source : Text → Option Text) :
    (∀ (line : Text) (region : Region), Within source line region →
      ∃ before inside behind, Parts line region before inside behind ∧
        (expandTabs line).chars = shown before ++ (shown inside ++ shown behind) ∧
        renderRegion colored source region =
          withCarets colored region line (shown before).length inside.length ∧
        (renderRegion colored source region =
          withCarets colored region line (shown before).length (shown inside).length ↔
            '\t' ∉ inside)) ∧
    (∀ number : Text,
      (gutter colored (Text.spaces number.length)).length = (gutter colored number).length) ∧
    ∀ (text : Text) (script : Script), Script.read text = .ok script → ∀ span ∈ script.spans,
      span.start.line = span.stop.line → span.InLine text.dropMark ∧
        ∀ diagnostic : Diagnostic, diagnostic.span = span → diagnostic.isWholeFile = false →
          ∀ region ∈ (CommandLine.snippetOf diagnostic).regions,
            source (readPath region) = some text → shownLine source region ≠ [] →
              Within source (shownLine source region) region := by
  refine ⟨?_, ?_, ?_⟩
  · intro line region within
    obtain ⟨before, inside, behind, parts⟩ := within.exists_parts
    have rendered : renderRegion colored source region = _ := within.renderRegion_eq parts
    refine ⟨before, inside, behind, parts, ?_, rendered, ?_⟩
    · rw [chars_expandTabs, parts.split, shown_append, shown_append]
    · rw [rendered, length_shown inside, ← List.count_eq_zero]
      constructor
      · intro same
        have width := withCarets_injective same
        omega
      · intro untabbed
        rw [untabbed, Nat.mul_zero, Nat.add_zero]
  · intro number
    simp only [gutter, List.length_append, Text.spaces, List.length_replicate]
  · intro text script accepted span among single
    refine ⟨Script.spans_inLine accepted span among single, ?_⟩
    rintro diagnostic rfl placed region member reads shows
    exact within_of_span accepted among single placed member reads shows

def findingAt (span : Span) : Diagnostic where
  file := "a.ps1"
  line := span.start.line
  col := span.start.col
  message := "Invalid import"
  code := "nonexisting-imports"
  level := .deny
  notes := []
  path := "/w/a.ps1"
  span := span

def regionAt (span : Span) : Region :=
  ⟨"a.ps1", "/w/a.ps1", span.start.line.toNat, span.start.col.toNat, span.stop.line.toNat,
    span.stop.col.toNat, []⟩

/-- An import behind a tab, with a character of two bytes in its path. -/
def indented : Text := "\t. é.ps1"

def indentedSpan : Span := ⟨⟨1, 1, 2⟩, ⟨9, 1, 9⟩⟩

def indentedScript : Script := ⟨[⟨.unrecognized "é.ps1", indentedSpan⟩], [], [], []⟩

/-- The tab is shown in four columns and the character in one, so the carets are under all of the import. -/
theorem indented_underlined :
    Script.read indented = .ok indentedScript ∧ indentedSpan ∈ indentedScript.spans ∧
    ∃ before inside behind, Parts indented (regionAt indentedSpan) before inside behind ∧
      renderRegion false (fun _ => some indented) (regionAt indentedSpan) =
        withCarets false (regionAt indentedSpan) indented (shown before).length
          (shown inside).length := by
  obtain ⟨under, -, scripts⟩ := carets_start_under_text false (fun _ => some indented)
  have accepted : Script.read indented = .ok indentedScript := by decide +kernel
  have among : indentedSpan ∈ indentedScript.spans := by decide +kernel
  have same : shownLine (fun _ => some indented) (regionAt indentedSpan) = indented := by decide +kernel
  have shows : regionAt indentedSpan ∈ (CommandLine.snippetOf (findingAt indentedSpan)).regions := by
    decide +kernel
  have within := (scripts indented indentedScript accepted indentedSpan among rfl).2
    (findingAt indentedSpan) rfl rfl _ shows rfl (by decide +kernel)
  rw [same] at within
  obtain ⟨before, inside, behind, parts, -, -, underlined⟩ := under _ _ within
  have plain : '\t' ∉ inside := by
    rw [parts.inside_eq]
    decide +kernel
  exact ⟨accepted, among, before, inside, behind, parts, underlined.mpr plain⟩

def gapped : Text := ".\tgone.ps1"

def gappedSpan : Span := ⟨⟨0, 1, 1⟩, ⟨10, 1, 11⟩⟩

/-- The line is shown in thirteen columns, and the first ten of them are underlined. -/
theorem gapped_not_underlined :
    Script.read gapped = .ok ⟨[⟨.unrecognized "gone.ps1", gappedSpan⟩], [], [], []⟩ ∧
    Within (fun _ => some gapped) gapped (regionAt gappedSpan) ∧
    Parts gapped (regionAt gappedSpan) [] gapped.chars [] ∧ (shown gapped.chars).length = 13 ∧
    renderRegion false (fun _ => some gapped) (regionAt gappedSpan) =
      withCarets false (regionAt gappedSpan) gapped 0 10 ∧
    ¬ ∀ (source : Text → Option Text) (line : Text) (region : Region),
      Within source line region → ∀ before inside behind, Parts line region before inside behind →
        renderRegion false source region =
          withCarets false region line (shown before).length (shown inside).length := by
  have within : Within (fun _ => some gapped) gapped (regionAt gappedSpan) := by
    constructor <;> decide +kernel
  have parts : Parts gapped (regionAt gappedSpan) [] gapped.chars [] := by
    constructor <;> decide +kernel
  refine ⟨by decide +kernel, within, parts, by decide +kernel, by decide +kernel, fun underlined => ?_⟩
  have same := underlined _ _ _ within _ _ _ parts
  revert same
  decide +kernel

end Snippet

end ScopeLint
