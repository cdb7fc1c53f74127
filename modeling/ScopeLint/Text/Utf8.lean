import ScopeLint.Text.Basic

/-!
Reading bytes as characters. Decoding never fails: a byte that starts no well-formed sequence
is one piece of its own and reads as U+FFFD, and decoding resumes at the next byte. The bytes of
the pieces, put together, are the text that was read.
-/

namespace ScopeLint

structure Piece where
  char : Char
  bytes : Text
  deriving DecidableEq, Repr

namespace Utf8

/-- U+FFFD stands for bytes that decode to nothing. -/
def replacement : Char := '\uFFFD'

def isTail (byte : UInt8) : Bool := 0x80 ≤ byte && byte ≤ 0xBF

def isPair (first second : UInt8) : Bool :=
  0xC2 ≤ first && first ≤ 0xDF && isTail second

/-- The second byte is bounded so that no short code point is written long and no surrogate is
written at all. -/
def isTriple (first second third : UInt8) : Bool :=
  0xE0 ≤ first && first ≤ 0xEF && isTail third &&
    (if first = 0xE0 then 0xA0 else 0x80) ≤ second &&
    second ≤ (if first = 0xED then 0x9F else 0xBF)

/-- The second byte is bounded so that the code point needs four bytes and is at most
U+10FFFF. -/
def isQuadruple (first second third fourth : UInt8) : Bool :=
  0xF0 ≤ first && first ≤ 0xF4 && isTail third && isTail fourth &&
    (if first = 0xF0 then 0x90 else 0x80) ≤ second &&
    second ≤ (if first = 0xF4 then 0x8F else 0xBF)

def payload (byte : UInt8) : Nat := byte.toNat % 0x40

def bad (byte : UInt8) : Piece := ⟨replacement, [byte]⟩

/-- The piece that starts with byte `first` when `rest` follows it. -/
def lead (first : UInt8) (rest : Text) : Piece :=
  if first < 0x80 then ⟨Char.ofNat first.toNat, [first]⟩
  else match rest with
    | [] => bad first
    | second :: rest =>
        if isPair first second then
          ⟨Char.ofNat (first.toNat % 0x20 * 0x40 + payload second), [first, second]⟩
        else match rest with
          | [] => bad first
          | third :: rest =>
              if isTriple first second third then
                ⟨Char.ofNat ((first.toNat % 0x10 * 0x40 + payload second) * 0x40 + payload third),
                  [first, second, third]⟩
              else match rest with
                | [] => bad first
                | fourth :: _ =>
                    if isQuadruple first second third fourth then
                      ⟨Char.ofNat (((first.toNat % 0x08 * 0x40 + payload second) * 0x40
                        + payload third) * 0x40 + payload fourth),
                        [first, second, third, fourth]⟩
                    else bad first

/-- Decoding with `skip` bytes still belonging to the piece before. -/
def piecesFrom : (skip : Nat) → Text → List Piece
  | _, [] => []
  | skip + 1, _ :: rest => piecesFrom skip rest
  | 0, first :: rest =>
      let piece := lead first rest
      piece :: piecesFrom (piece.bytes.length - 1) rest

end Utf8

namespace Text

def pieces (text : Text) : List Piece := Utf8.piecesFrom 0 text

/-- The characters of a text, U+FFFD for every byte that decodes to nothing. -/
def chars (text : Text) : List Char := text.pieces.map Piece.char

def ofPieces (pieces : List Piece) : Text := pieces.flatMap Piece.bytes

end Text

/-- A byte that decodes to nothing, as opposed to a written U+FFFD. -/
def Piece.isBad (piece : Piece) : Bool :=
  piece.char = Utf8.replacement && piece.bytes.length = 1

end ScopeLint
