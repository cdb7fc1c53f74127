import ScopeLint.File.Glob.Pattern
import ScopeLint.Text.Search

/-!
Matchers decide whether a text is what a pattern asks for. A matcher may have a fixed width in
characters; matchers of fixed width that stand side by side form a row, which is compared
member by member. All other sequences are split: a matcher in the middle is looked for from left to
right, and what stands before and behind it is left to two further matchers. To be looked for, a
matcher can tell where it first fits and how many bytes it may take there. Fitting somewhere is
not as thorough as accepting a whole text: a matcher that ends in a given text stops at the first
occurrence, and one that is split itself is never found.
-/

namespace ScopeLint

inductive Matcher where
  /-- The empty text. -/
  | nothing
  /-- Every text. -/
  | anything
  /-- Every text without a slash. -/
  | withinName
  | one (among : CharClass)
  | literal (text : Text)
  /-- Members of fixed width, side by side. -/
  | row (members : List Matcher)
  /-- At least, or exactly, so many characters, among which a text does not occur. -/
  | counted (least : Nat) (exact : Bool) (without : Text)
  | containing (part : Text)
  | starting (first : Text)
  | ending (last : Text)
  /-- Given texts at both ends, which may overlap. -/
  | bothEnds (first last : Text)
  /-- A text with the rest of a name behind it. -/
  | startingName (first : Text)
  /-- A text with the front of a name before it. -/
  | endingName (last : Text)
  | either (alternatives : List Matcher)
  /-- A matcher somewhere in the text, with what has to stand before and behind it. -/
  | split (middle before behind : Matcher)

namespace Matcher

/-- The width that alternatives share. Those of free width in front of all others are passed
over, and count as if they had the width of the others. -/
def sharedWidth : (found : Option Nat) → List (Option Nat) → Option Nat
  | found, [] => found
  | none, width :: rest => sharedWidth width rest
  | some found, width :: rest =>
      if width = some found then sharedWidth (some found) rest else none

def totalWidth : List (Option Nat) → Option Nat
  | [] => some 0
  | width :: rest => do return (← width) + (← totalWidth rest)

mutual

def width? : Matcher → Option Nat
  | nothing => some 0
  | one _ => some 1
  | literal text => some text.chars.length
  | row members => totalWidth (widths members)
  | either alternatives => sharedWidth none (widths alternatives)
  | _ => none

def widths : List Matcher → List (Option Nat)
  | [] => []
  | matcher :: rest => width? matcher :: widths rest

end

/-- Where a matcher fits, and the numbers of bytes that it may take there. -/
structure Hit where
  place : Nat
  lengths : List Nat
  deriving DecidableEq, Repr

/-- The earlier one of two hits, or both when they are at one place. -/
def Hit.earlier : Option Hit → Option Hit → Option Hit
  | none, hit => hit
  | hit, none => hit
  | some left, some right =>
      if left.place < right.place then some left
      else if right.place < left.place then some right
      else some ⟨left.place, left.lengths ++ right.lengths⟩

def slash : UInt8 := Text.byte '/'

def nameFront (text : Text) : Text := text.takeWhile (· ≠ slash)

/-- How many bytes a member of a row is compared with: those up to the first byte of its last
character. A member of width zero goes to the last character of the text. -/
def memberLength? (width : Nat) (text : Text) : Option Nat :=
  let sizes := text.pieces.map fun piece => piece.bytes.length
  if sizes.length < width then none
  else
    let front := if width = 0 then sizes.dropLast else sizes.take (width - 1)
    some (front.foldr (· + ·) 0 + 1)

/-- The lengths at which a text can be cut so that the front holds at least, or exactly, so many
characters and not the text `without`. -/
def countedLengths (least : Nat) (exact : Bool) (without text : Text) : List Nat :=
  let ends := text.ends
  let free := match text.indexOf? without with
    | some place => text.take place
    | none => text
  (ends.drop (least - 1)).filter fun length =>
    (!exact || (ends.take least).elem length) && (Text.stops free).elem length

/-- The ends of the occurrences of `last`, from right to left and without overlaps. The text and
`last` are given backwards, and `skip` bytes belong to the occurrence before. -/
def endsBackwards (last : Text) : (skip : Nat) → Text → List Nat
  | _, [] => []
  | skip + 1, _ :: rest => endsBackwards last skip rest
  | 0, byte :: rest =>
      if Text.startsWith (byte :: rest) last then
        (rest.length + 1) :: endsBackwards last (last.length - 1) rest
      else endsBackwards last 0 rest

def hitFrom (text first : Text) (behind : Text → List Nat) : Option Hit :=
  (text.indexOf? first).map fun place =>
    ⟨place, first.length :: (behind (text.drop (place + first.length))).map (first.length + ·)⟩

def headLength (text : Text) : Nat := (text.pieces.head?.map fun piece => piece.bytes.length).getD 0

/-- Looks for a matcher from an offset on until what stands before and behind it is accepted. The
offset grows with every round, so the length of the text bounds their number. -/
def search (find : Text → Option Hit) (before behind : Text → Bool) (text : Text) :
    (fuel : Nat) → (offset : Nat) → Bool
  | 0, _ => false
  | fuel + 1, offset =>
      if text.length ≤ offset then false
      else match find (text.drop offset) with
        | none => false
        | some hit =>
            let place := offset + hit.place
            (before (text.take place)
                && hit.lengths.any fun length => behind (text.drop (place + length)))
              || search find before behind text fuel (place + headLength (text.drop place))

mutual

def accepts : Matcher → Text → Bool
  | nothing, text => text.isEmpty
  | anything, _ => true
  | withinName, text => !List.elem slash text
  | one among, text =>
      match text.pieces with
      | [] => among.holds Utf8.replacement
      | [piece] => among.holds piece.char
      | _ => false
  | literal wanted, text => text = wanted
  | row members, text =>
      totalWidth (widths members) = some text.pieces.length && acceptsRow members text
  | counted least exact without, text =>
      let count := text.pieces.length
      least ≤ count && (!exact || count ≤ least) && !Text.contains text without
  | containing part, text => Text.contains text part
  | starting first, text => Text.startsWith text first
  | ending last, text => Text.endsWith text last
  | bothEnds first last, text => Text.startsWith text first && Text.endsWith text last
  | startingName first, text =>
      Text.startsWith text first && !List.elem slash (text.drop first.length)
  | endingName last, text =>
      Text.endsWith text last && !List.elem slash (text.take (text.length - last.length))
  | either alternatives, text => acceptsAny alternatives text
  | split middle before behind, text =>
      search (find? middle) (accepts before) (accepts behind) text text.length 0

/-- Whether a text starts with what the members of a row ask for. -/
def acceptsRow : List Matcher → Text → Bool
  | [], _ => true
  | matcher :: rest, text =>
      match memberLength? ((width? matcher).getD 0) text with
      | none => false
      | some length => accepts matcher (text.take length) && acceptsRow rest (text.drop length)

def acceptsAny : List Matcher → Text → Bool
  | [], _ => false
  | matcher :: rest, text => accepts matcher text || acceptsAny rest text

def find? : Matcher → Text → Option Hit
  | nothing, _ => some ⟨0, [0]⟩
  | anything, text => some ⟨0, text.stops⟩
  | withinName, text => some ⟨0, (nameFront text).stops⟩
  | one among, text =>
      (text.placed.find? fun (_, piece) => among.holds piece.char).map fun (place, piece) =>
        ⟨place, [Text.written piece]⟩
  | literal wanted, text => hitFrom text wanted fun _ => []
  | row members, text =>
      let places := text.placed.map Prod.fst
      (places.find? fun place => acceptsRow members (text.drop place)).map fun place =>
        ⟨place, (totalWidth (widths members)).toList⟩
  | counted least exact without, text =>
      match countedLengths least exact without text with
      | [] => none
      | lengths => some ⟨0, lengths⟩
  | containing part, text =>
      (text.indexOf? part).map fun place =>
        let front := place + part.length
        ⟨0, (Text.stops (text.drop front)).map (front + ·)⟩
  | starting first, text => hitFrom text first Text.ends
  | ending last, text => (text.indexOf? last).map fun place => ⟨0, [place + last.length]⟩
  | bothEnds first last, text =>
      (text.indexOf? first).bind fun place =>
        match endsBackwards last.reverse 0 (text.drop place).reverse with
        | [] => none
        | lengths => some ⟨place, lengths⟩
  | startingName first, text => hitFrom text first fun behind => (nameFront behind).ends
  | endingName last, text =>
      (text.indexOf? last).map fun place =>
        let name := (nameFront (text.take place).reverse).length
        ⟨place - name, [name + last.length]⟩
  | either alternatives, text => findAny alternatives text
  | split .., _ => none

def findAny : List Matcher → Text → Option Hit
  | [], _ => none
  | matcher :: rest, text => Hit.earlier (find? matcher text) (findAny rest text)

end

end Matcher

end ScopeLint
