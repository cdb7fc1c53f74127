import ScopeLint.Toml.Fault

/-!
Reading a TOML document character by character. Looking at a character that no document may hold is
a fault at once, so whatever reads up to such a character fails there.
-/

namespace ScopeLint.Toml

/-- What is left of a document, and the number of its line. -/
structure Cursor where
  rest : List Piece
  line : Nat := 1
  /-- Whether a line feed was read last. -/
  fresh : Bool := false

structure Stop where
  line : Nat
  fault : Fault

abbrev Scan := StateT Cursor (Except Stop)

def isGap (char : Char) : Bool := char = ' ' || char = '\t'

def isLineEnd (char : Char) : Bool := char = '\n' || char = '\r'

namespace Scan

def fail {Result : Type} (fault : Fault) : Scan Result := fun cursor =>
  .error ⟨cursor.line, fault⟩

def failBefore {Result : Type} (fault : Fault) : Scan Result := fun cursor =>
  .error ⟨cursor.line - 1, fault⟩

/-- A fault in what was found. The end of a document belongs to its last line, also when a line
feed ends that line. -/
def failOn {Result : Type} (found : Option Char) (fault : Fault) : Scan Result := fun cursor =>
  .error ⟨if found.isNone && cursor.fresh then cursor.line - 1 else cursor.line, fault⟩

def lift {Result : Type} : Except Fault Result → Scan Result
  | .ok result => pure result
  | .error fault => fail fault

/-- Whether a character may not stand in front of `rest`: control characters, and a carriage return
without a line feed. -/
def isForbidden (char : Char) (rest : List Piece) : Bool :=
  isControl char || (char = '\r' && (rest.head?.map Piece.char) ≠ some '\n')

/-- Reads the next character, nothing at the end. -/
def next : Scan (Option Char) := fun cursor =>
  match cursor.rest with
  | [] => .ok (none, cursor)
  | piece :: rest =>
      if piece.isBad then .error ⟨cursor.line, .badByte piece.bytes⟩
      else if isForbidden piece.char rest then .error ⟨cursor.line, .controlChar piece.char⟩
      else
        let fresh := piece.char = '\n'
        .ok (some piece.char, { rest, line := if fresh then cursor.line + 1 else cursor.line, fresh })

def peek : Scan (Option Char) := fun cursor =>
  (next cursor).map fun (found, _) => (found, cursor)

def accept (expected : Char) : Scan Bool := do
  if (← peek) = some expected then
    let _ ← next
    return true
  else return false

/-- Reads at most as many characters as `bound` has, as long as they are among some. -/
def readUpTo (among : Char → Bool) : (bound : List Piece) → Scan Text
  | [] => return []
  | _ :: bound => do
      match ← peek with
      | none => return []
      | some char =>
          if among char then
            let _ ← next
            let rest ← readUpTo among bound
            return Text.ofChar char ++ rest
          else return []

/-- Reads characters as long as they are among some, and looks at the one behind them. -/
def readWhile (among : Char → Bool) : Scan Text := do readUpTo among (← get).rest

def skipGaps : Scan Unit := do
  let _ ← readWhile isGap

def skipLinesUpTo : (bound : List Piece) → Scan Unit
  | [] => return ()
  | _ :: bound => do
      let _ ← readWhile fun char => isGap char || isLineEnd char
      if ← accept '#' then
        let _ ← readWhile fun char => !isLineEnd char
        skipLinesUpTo bound

def skipLines : Scan Unit := do skipLinesUpTo (← get).rest

end Scan

end ScopeLint.Toml
