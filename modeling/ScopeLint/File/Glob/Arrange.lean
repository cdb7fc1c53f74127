import ScopeLint.File.Glob.Matcher

/-!
From the parts of a pattern to its matcher. Neighbours that can be counted together or that all
have fixed widths are joined first, the longest runs before shorter ones. A sequence that is left
with several members is split at the widest one. What all alternatives share in front and at the end
is taken out of them.
-/

namespace ScopeLint

namespace Matcher

/-- A matcher that takes any number of characters, or one, out of all but a few. -/
structure Stretch where
  single : Bool
  without : List Char

def stretch? : Matcher → Option Stretch
  | anything => some ⟨false, []⟩
  | withinName => some ⟨false, ['/']⟩
  | one .inName => some ⟨true, ['/']⟩
  | one (.set chars true) => some ⟨true, chars⟩
  | _ => none

/-- The matcher that counts characters in place of stretches which leave out the same ones. -/
def counting? (matchers : List Matcher) : Option Matcher := do
  let stretches ← matchers.mapM stretch?
  let without := (stretches.head?.map Stretch.without).getD []
  if stretches.all fun stretch => stretch.without = without then
    let singles := stretches.filter Stretch.single
    if singles.isEmpty then return if without.isEmpty then anything else withinName
    else return counted singles.length (singles.length = stretches.length) (Text.ofChars without)
  else none

def row? (matchers : List Matcher) : Option Matcher :=
  (totalWidth (widths matchers)).map fun _ => row matchers

def join? (matchers : List Matcher) : Option Matcher :=
  if matchers.length < 2 then none else counting? matchers <|> row? matchers

/-- Neighbours in a sequence with the matcher that can take their place. -/
structure Joint where
  start : Nat
  count : Nat
  joined : Matcher

/-- The joints of a sequence, from left to right, the longer ones at a place first. -/
def joints (matchers : List Matcher) : List Joint :=
  (List.range matchers.length).flatMap fun start =>
    (List.range (matchers.length - start + 1)).reverse.filterMap fun count =>
      (join? ((matchers.drop start).take count)).map fun joined => ⟨start, count, joined⟩

/-- Whether a joint is preferred to one that comes earlier: for a larger width or for more
members. -/
def Joint.beats (later earlier : Joint) : Bool :=
  (match earlier.joined.width?, later.joined.width? with
    | some least, some width => least < width
    | _, _ => false)
    || earlier.count < later.count

def bestJoint? (matchers : List Matcher) : Option Joint :=
  (joints matchers).foldl (fun best joint =>
    if best.all joint.beats then some joint else best) none

/-- Makes joints until there are none. Every joint shortens the sequence. -/
def joinAll : (fuel : Nat) → List Matcher → List Matcher
  | 0, matchers => matchers
  | fuel + 1, matchers =>
      match bestJoint? matchers with
      | none => matchers
      | some joint => joinAll fuel
          (matchers.take joint.start ++ joint.joined :: matchers.drop (joint.start + joint.count))

def unwrapped : Matcher → Matcher
  | either [only] => only
  | matcher => matcher

/-- A split, in a simpler form where a text stands at an end or between matchers that take
everything. -/
def around : (middle before behind : Matcher) → Matcher
  | literal text, anything, anything => containing text
  | literal text, anything, nothing => ending text
  | literal text, nothing, anything => starting text
  | literal text, nothing, ending last => bothEnds text last
  | literal text, starting first, nothing => bothEnds first text
  | literal text, withinName, nothing => endingName text
  | literal text, nothing, withinName => startingName text
  | middle, before, behind => split middle before behind

/-- The place of the widest member of a sequence, the last one of several. -/
def widest? (matchers : List Matcher) : Option Nat :=
  ((widths matchers).zipIdx.foldl (fun best (width?, place) =>
    match width? with
    | some width => if best.all fun (_, least) => least ≤ width then some (place, width) else best
    | none => best) (none : Option (Nat × Nat))).map Prod.fst

/-- Splits a sequence at its widest member, or at its first one when no width is fixed. Both sides
are shorter than the sequence. -/
def splitAll : (fuel : Nat) → List Matcher → Matcher
  | _, [] => nothing
  | _, [matcher] => unwrapped matcher
  | 0, _ => nothing
  | fuel + 1, matchers =>
      let place := (widest? matchers).getD 0
      match matchers.drop place with
      | [] => nothing
      | middle :: behind => around middle (splitAll fuel (matchers.take place)) (splitAll fuel behind)

def sequence (matchers : List Matcher) : Matcher :=
  splitAll matchers.length (joinAll matchers.length matchers)

def member (matchers : List Matcher) : List Matcher :=
  if matchers.isEmpty then [] else [sequence matchers]

abbrev Branch := List (GlobPart × Matcher)

/-- How many parts alternatives share in front and at the end, and whether they may share more. -/
structure Shared where
  front : Nat := 0
  back : Nat := 0
  frontOpen : Bool := true
  backOpen : Bool := true

def samePart (left right : Option (GlobPart × Matcher)) : Bool :=
  match left, right with
  | some left, some right => left.1.same right.1
  | _, _ => false

/-- Compares one more part from the front and one from the end of the shortest alternative with the
others. Where both meet, the one counts as part of the front. -/
def Shared.step (shortest : Branch) (others : List Branch) (shared : Shared) (place : Nat) : Shared :=
  let fromEnd := shortest.length - 1 - place
  if shortest.length ≤ shared.front + shared.back then shared
  else
    let (frontOpen, backOpen) := others.foldl (fun (front, back) other =>
      let front := front && samePart shortest[place]? other[place]?
      let back := back && !(front && fromEnd ≤ place)
        && samePart shortest[fromEnd]? other[fromEnd + (other.length - shortest.length)]?
      (front, back)) (shared.frontOpen, shared.backOpen)
    { front := shared.front + if frontOpen then 1 else 0
      back := shared.back + if backOpen then 1 else 0
      frontOpen, backOpen }

def sharedBy (branches : List Branch) : Shared :=
  let least := (branches.map List.length).min?.getD 0
  let place := branches.findIdx fun branch => branch.length = least
  let others := branches.eraseIdx place
  if others.isEmpty then {}
  else (List.range least).foldl (Shared.step (branches.getD place []) others) {}

def sameBranch (left right : Branch) : Bool :=
  GlobPart.sameParts (left.map Prod.fst) (right.map Prod.fst)

def distinct (branches : List Branch) : List Branch :=
  branches.foldl (fun kept branch =>
    if kept.any (sameBranch branch) then kept else kept ++ [branch]) []

/-- The matcher of alternatives. What they share is taken out, which makes all of them shorter. -/
def ofBranches : (fuel : Nat) → List Branch → Matcher
  | 0, branches => either (branches.map fun branch => sequence (branch.map Prod.snd))
  | fuel + 1, branches =>
      let shared := sharedBy branches
      if shared.front = 0 && shared.back = 0 then
        either (branches.map fun branch => sequence (branch.map Prod.snd))
      else
        let first := branches.headD []
        let front := (first.take shared.front).map Prod.snd
        let back := (first.drop (first.length - shared.back)).map Prod.snd
        let rest := distinct (branches.map fun branch =>
          (branch.drop shared.front).take (branch.length - shared.front - shared.back))
        let middle := match rest with
          | [only] => member (only.map Prod.snd)
          | _ => [ofBranches fuel rest]
        sequence (member front ++ middle ++ member back)

mutual

/-- The matcher of one part. A set of one character is that character. -/
def ofPart : GlobPart → Matcher
  | .literal text => literal text
  | .star => withinName
  | .doubleStar => anything
  | .one (.set [char] false) => literal (Text.ofChar char)
  | .one among => one among
  | .alternatives branches =>
      let branches := branchesOf branches
      ofBranches branches.flatten.length branches

def branchOf : List GlobPart → Branch
  | [] => []
  | part :: rest => (part, ofPart part) :: branchOf rest

def branchesOf : List (List GlobPart) → List Branch
  | [] => []
  | branch :: rest => branchOf branch :: branchesOf rest

end

def ofParts (parts : List GlobPart) : Matcher := sequence ((branchOf parts).map Prod.snd)

end Matcher

end ScopeLint
