import ScopeLint.Text.Utf8

/-!
Glob patterns for paths, as they are written. A star stands for characters within a name, a double
star also for slashes, a question mark for one character of a name; brackets stand for one
character of a set or range, braces for one of several alternatives, and a backslash takes the
next character literally.
-/

namespace ScopeLint

inductive CharClass where
  /-- Any character of a name. -/
  | inName
  /-- A character that is in the list, or that is not. -/
  | set (chars : List Char) (negated : Bool)
  /-- A character of a range, ends included, or one outside it. -/
  | range (low high : Char) (negated : Bool)
  deriving DecidableEq, Repr

def CharClass.holds : CharClass → Char → Bool
  | inName, char => char ≠ '/'
  | set chars negated, char => chars.elem char != negated
  | range low high negated, char => (low ≤ char && char ≤ high) != negated

inductive GlobPart where
  | literal (text : Text)
  /-- Any characters of one name. -/
  | star
  /-- Any characters. -/
  | doubleStar
  /-- One character. -/
  | one (among : CharClass)
  | alternatives (branches : List (List GlobPart))

namespace GlobPart

mutual

def same : GlobPart → GlobPart → Bool
  | literal left, literal right => left = right
  | star, star => true
  | doubleStar, doubleStar => true
  | one left, one right => left = right
  | alternatives left, alternatives right => sameBranches left right
  | _, _ => false

def sameParts : List GlobPart → List GlobPart → Bool
  | [], [] => true
  | left :: lefts, right :: rights => same left right && sameParts lefts rights
  | _, _ => false

def sameBranches : List (List GlobPart) → List (List GlobPart) → Bool
  | [], [] => true
  | left :: lefts, right :: rights => sameParts left right && sameBranches lefts rights
  | _, _ => false

end

end GlobPart

inductive GlobError where
  | unexpectedEnd
  /-- A range is not closed where it has to be. -/
  | rangeNotClosed
  | emptySet
  | invertedRange (low high : Char)
  /-- Bytes that decode to nothing. -/
  | unreadable
  deriving DecidableEq, Repr

def GlobError.message : GlobError → Text
  | unexpectedEnd => "unexpected end of input"
  | rangeNotClosed => "expected close range character"
  | emptySet => "could not parse range"
  | invertedRange low high =>
      "hi character '" ++ Text.ofChar high ++ "' should be greater than lo '" ++ Text.ofChar low
        ++ "'"
  | unreadable => "could not read rune"

namespace Glob

/-- The end of a pattern, which a zero character also marks. -/
def isEnd (char : Char) : Bool := char.toNat = 0

/-- Literal characters up to one of `breakers`, backslashes taken away, and what follows. -/
def readText (breakers : List Char) : (escaped : Bool) → List Char → List Char × List Char
  | _, [] => ([], [])
  | escaped, char :: rest =>
      if isEnd char then ([], rest)
      else if char = Utf8.replacement then ([], char :: rest)
      else if !escaped && char = '\\' then readText breakers true rest
      else if !escaped && breakers.elem char then ([], char :: rest)
      else
        let (chars, behind) := readText breakers false rest
        (char :: chars, behind)

def readChar : List Char → Except GlobError (Char × List Char)
  | [] => .error .unexpectedEnd
  | char :: rest =>
      if isEnd char || char = Utf8.replacement then .error .unexpectedEnd else .ok (char, rest)

def readClose (input : List Char) : Except GlobError (List Char) := do
  let (char, rest) ← readChar input
  if char = ']' then return rest else .error .rangeNotClosed

/-- A set or range from behind its opening bracket and negation. -/
def readSet (negated : Bool) (input : List Char) : Except GlobError (GlobPart × List Char) := do
  let (low, behind) ← readChar input
  match behind with
  | '-' :: behind => do
      let (high, behind) ← readChar behind
      let rest ← readClose behind
      if high < low then .error (.invertedRange low high)
      else return (.one (.range low high negated), rest)
  | _ => do
      let (chars, behind) := readText [']'] false input
      let rest ← readClose behind
      if chars.isEmpty then .error .emptySet else return (.one (.set chars negated), rest)

/-- Braces that are open: the parts in front of each, and its alternatives so far. -/
abbrev Open := List (List GlobPart × List (List GlobPart))

def close (parts : List GlobPart) : Open → List GlobPart × Open
  | [] => (parts, [])
  | (front, branches) :: outer => (front ++ [.alternatives (branches ++ [parts])], outer)

def closeAll (parts : List GlobPart) : Open → List GlobPart
  | [] => parts
  | (front, branches) :: outer => closeAll (front ++ [.alternatives (branches ++ [parts])]) outer

def textBreakers (nested : Bool) : List Char :=
  ['?', '*', '[', '\x7b'] ++ if nested then ['\x7d', ','] else []

/-- The parts of a pattern. Each round reads at least one character. -/
def parseFrom : (fuel : Nat) → (parts : List GlobPart) → Open → List Char →
    Except GlobError (List GlobPart)
  | 0, parts, opened, _ => .ok (closeAll parts opened)
  | _ + 1, parts, opened, [] => .ok (closeAll parts opened)
  | fuel + 1, parts, opened, char :: rest =>
      if isEnd char then .ok (closeAll parts opened)
      else if char = Utf8.replacement then .error .unreadable
      else if char = '\x7b' then parseFrom fuel [] ((parts, []) :: opened) rest
      else if char = '[' then do
        let (part, rest) ← match rest with
          | '!' :: behind => readSet true behind
          | _ => readSet false rest
        parseFrom fuel (parts ++ [part]) opened rest
      else if char = '?' then parseFrom fuel (parts ++ [.one .inName]) opened rest
      else if char = '*' then
        match rest with
        | '*' :: behind => parseFrom fuel (parts ++ [.doubleStar]) opened behind
        | _ => parseFrom fuel (parts ++ [.star]) opened rest
      else match char, opened with
        | ',', (front, branches) :: outer =>
            parseFrom fuel [] ((front, branches ++ [parts]) :: outer) rest
        | '\x7d', _ :: _ =>
            let (parts, opened) := close parts opened
            parseFrom fuel parts opened rest
        | _, _ =>
            let (chars, behind) := readText (textBreakers !opened.isEmpty) false (char :: rest)
            let part := if chars.isEmpty then [] else [.literal (Text.ofChars chars)]
            parseFrom fuel (parts ++ part) opened behind

def parse (pattern : Text) : Except GlobError (List GlobPart) :=
  let chars := pattern.chars
  parseFrom (chars.length + 1) [] [] chars

end Glob

end ScopeLint
