import ScopeLint.Source.Lookahead
import ScopeLint.Tree.Reader

/-!
Reading lexemes step by step. A scanner asks its reader for one character after the other and keeps what is
open on a stack of its own: the groups that have to be closed, each with the string that it is a part of, and
the lexemes in front of it. A step is one turn of a loop, or one call of a part of the work by another, and
nothing bounds their number. A group can only be opened by an opening bracket; with anything else in its
place the scanner would break down.
-/

namespace ScopeLint

/-- Something that characters are read from. Whatever it is asked may change it. -/
class CharReader (Reader : Type) where
  /-- The next character, which stays where it is. -/
  peek : StateM Reader (Option Char)
  /-- The character behind the next one. -/
  peekSecond : StateM Reader (Option Char)
  /-- Takes the next character. -/
  next : StateM Reader (Option Glyph)
  /-- Where the next character starts, or where the last one ends. -/
  place : StateM Reader Location

instance Lookahead.charReader : CharReader Lookahead where
  peek := Lookahead.peek
  peekSecond := Lookahead.peekSecond
  next := Lookahead.next
  place ahead := (ahead.location, ahead)

instance Cursor.charReader : CharReader Cursor where
  peek cursor := (cursor.peek, cursor)
  peekSecond cursor := (cursor.peekSecond, cursor)
  next cursor := (cursor.rest.head?, { cursor with rest := cursor.rest.tail })
  place cursor := (cursor.location, cursor)

/-- What stands for a character that is taken where there is none. -/
def Glyph.missing : Glyph := ⟨'\x00', .zero⟩

namespace Tree

structure OpenString where
  form : Quotation
  parts : List Tree

def OpenString.add (literal : OpenString) (part : Tree) : OpenString :=
  { literal with parts := literal.parts ++ [part] }

def OpenString.close (literal : OpenString) (last : Location) : Tree :=
  .string ⟨literal.form.start, last⟩ literal.parts

structure OpenGroup where
  delimiter : Delimiter
  start : Location
  /-- The string that the group is a part of, if it is. -/
  within : Option OpenString
  /-- The lexemes in front of the group, or of that string, in the stream around it. -/
  before : List Tree

/-- What a scanner is at. A part that is read for a string carries the string along. -/
inductive Job where
  /-- Asking for the next lexeme of a stream. -/
  | stream
  /-- Looking for a lexeme. -/
  | lexeme
  /-- In front of the bracket that opens a group. -/
  | group (within : Option OpenString)
  | symbol
  /-- In front of a word. -/
  | word (within : Option OpenString)
  /-- In a word, behind its first character. -/
  | letters (within : Option OpenString) (start : Location)
  | digits (start : Location)
  /-- In a line comment. -/
  | line
  /-- In front of a block comment. -/
  | block
  /-- In a block comment. -/
  | comment (start : Location)
  /-- In front of an at sign. -/
  | sign
  /-- In front of the quote that opens a string, behind the at sign of a here-string. -/
  | quote (sign : Option Location)
  | string (literal : OpenString)
  /-- A lexeme, or a part of a string, has been read. -/
  | made (within : Option OpenString) (tree : Tree)
  /-- There is no further lexeme in the stream. -/
  | ended

/-- The job at hand, the lexemes read so far of the innermost stream, and the groups that are open around
it, the innermost one first. -/
structure Activity where
  job : Job
  done : List Tree
  groups : List OpenGroup

inductive Phase where
  | reading (activity : Activity)
  | finished (outcome : Except SyntaxError (List Tree))
  /-- Broken down over a character that opens no group. -/
  | broken (char : Char)

structure Scanner (Reader : Type) where
  phase : Phase
  reader : Reader

open CharReader

variable {Reader : Type} [CharReader Reader]

def Job.ofChar (char : Char) : StateM Reader Job :=
  match Lead.ofChar char with
  | .opening _ => return .group none
  | .closing _ => return .ended
  | .lineEnd => return .symbol
  | .comment => return .line
  | .atSign => return .sign
  | .quote => return .quote none
  | .word => return .word none
  | .number => return .digits (← place)
  | .blank => do
      let _ ← next
      return .lexeme
  | .other =>
      if char = '<' then do
        if (← peekSecond) = some '#' then return .block else return .symbol
      else return .symbol

def OpenString.afterQuote (literal : OpenString) (quote : Glyph) : StateM Reader Job :=
  if literal.form.here then
    if quote.span.start.col = 1 then do
      if (← peek) = some '@' then
        let _ ← next
        return .made none (literal.close (← place))
      else return .string literal
    else return .string literal
  else do
    if (← peek) = some literal.form.quote then
      let _ ← next
      return .string literal
    else return .made none (literal.close (← place))

def OpenString.after (literal : OpenString) (glyph : Glyph) : StateM Reader Job :=
  if glyph.char = '\x60' ∧ literal.form.expands then do
    let _ ← next
    return .string literal
  else if glyph.char = literal.form.quote then literal.afterQuote glyph
  else if glyph.char = '$' ∧ literal.form.expands then do
    match ← peek with
    | none => return .string literal
    | some char =>
        if char = '(' ∨ char = '\x7b' then return .group (some literal)
        else if startsWord char then return .word (some literal)
        else return .string literal
  else return .string literal

namespace Activity

def turnTo (activity : Activity) (job : Job) : Phase := .reading { activity with job }

/-- The end of the innermost stream, which closes the group that holds it or ends the whole text. -/
def close (activity : Activity) : StateM Reader Phase :=
  let trees := activity.done.foldr link []
  match activity.groups with
  | [] => do
      match ← next with
      | none => return .finished (.ok trees)
      | some last => return .finished (.error ⟨.strayClosing last.char, last.span.start⟩)
  | opened :: groups => do
      match ← next with
      | none => return .finished (.error ⟨.wrongClosing opened.delimiter none, ← place⟩)
      | some last =>
          if last.char = opened.delimiter.closing then
            let tree := group opened.delimiter ⟨opened.start, last.span.stop⟩ trees
            return .reading ⟨.made opened.within tree, opened.before, groups⟩
          else
            return .finished
              (.error ⟨.wrongClosing opened.delimiter (some last.char), last.span.start⟩)

def step (activity : Activity) : StateM Reader Phase :=
  match activity.job with
  | .stream => return activity.turnTo .lexeme
  | .lexeme => do
      match ← peek with
      | none => return activity.turnTo .ended
      | some char => return activity.turnTo (← Job.ofChar char)
  | .group within => do
      let first := (← next).getD .missing
      match Lead.ofChar first.char with
      | .opening delimiter =>
          let opened := ⟨delimiter, first.span.start, within, activity.done⟩
          return .reading ⟨.stream, [], opened :: activity.groups⟩
      | _ => return .broken first.char
  | .symbol => do
      let glyph := (← next).getD .missing
      return activity.turnTo (.made none (.symbol glyph.char glyph.span .alone))
  | .word within => do
      let start ← place
      let _ ← next
      return activity.turnTo (.letters within start)
  | .letters within start => do
      if (← peek).any continuesWord then
        let _ ← next
        return activity.turnTo (.letters within start)
      else return activity.turnTo (.made within (.word ⟨start, ← place⟩ .alone))
  | .digits start => do
      if (← peek).any Text.isDigit then
        let _ ← next
        return activity.turnTo (.digits start)
      else return activity.turnTo (.made none (.number ⟨start, ← place⟩))
  | .line => do
      if (← peek).all (· = '\n') then return activity.turnTo .lexeme
      else
        let _ ← next
        return activity.turnTo .line
  | .block => do
      let start ← place
      let _ ← next
      let _ ← next
      return activity.turnTo (.comment start)
  | .comment start => do
      match ← next with
      | none => return .finished (.error ⟨.openComment, start⟩)
      | some glyph =>
          if glyph.char = '#' then
            if (← peek) = some '>' then
              let _ ← next
              return activity.turnTo .lexeme
            else return activity.turnTo (.comment start)
          else return activity.turnTo (.comment start)
  | .sign => do
      let sign := (← next).getD .missing
      if (← peek).any fun char => char = '\'' || char = '"' then
        return activity.turnTo (.quote (some sign.span.start))
      else return activity.turnTo (.made none (.symbol '@' sign.span .alone))
  | .quote sign => do
      let start ← place
      let quote := (← next).getD .missing
      return activity.turnTo (.string ⟨⟨sign.getD start, quote.char, sign.isSome⟩, []⟩)
  | .string literal => do
      match ← next with
      | none => return .finished (.error ⟨.openString, literal.form.start⟩)
      | some glyph => return activity.turnTo (← literal.after glyph)
  | .made none tree =>
      return .reading { activity with job := .stream, done := activity.done ++ [tree] }
  | .made (some literal) part => return activity.turnTo (.string (literal.add part))
  | .ended => activity.close

end Activity

namespace Scanner

def start (reader : Reader) : Scanner Reader := ⟨.reading ⟨.stream, [], []⟩, reader⟩

/-- The scanner one step later. Nothing happens any more once it has finished or broken down. -/
def advance (scanner : Scanner Reader) : Scanner Reader :=
  match scanner.phase with
  | .reading activity =>
      let (phase, reader) := activity.step scanner.reader
      ⟨phase, reader⟩
  | _ => scanner

def scan (reader : Reader) : Nat → Scanner Reader
  | 0 => start reader
  | count + 1 => (scan reader count).advance

end Scanner

end Tree

end ScopeLint
