import ScopeLint.Text.Hex

/-!
File paths as the URIs by which editors name documents. Writing escapes every byte that has a
meaning of its own in a URI, so that reading gives the path back. A URI of another scheme, and a
path that does not start at the root, stand for themselves.
-/

namespace ScopeLint.Uri

def scheme : Text := "file://"

def percent : UInt8 := 0x25

def plainMarks : Text := "-_.~$&+,/:;=@"

def isPlain (byte : UInt8) : Bool :=
  (0x30 ≤ byte && byte ≤ 0x39) || (0x41 ≤ byte && byte ≤ 0x5A) || (0x61 ≤ byte && byte ≤ 0x7A)
    || List.contains plainMarks byte

def capitalDigit (digit : Nat) : UInt8 :=
  (if digit < 10 then 0x30 + digit else 0x37 + digit).toUInt8

/-- A byte of a path, by its number unless it is plain. -/
def escapeByte (byte : UInt8) : Text :=
  if isPlain byte then [byte]
  else [percent, capitalDigit (byte.toNat / 16), capitalDigit (byte.toNat % 16)]

/-- The bytes that an escaped text stands for. Fails at a percent sign without two digits. -/
def unescape? : Text → Option Text
  | [] => some []
  | byte :: rest =>
      if byte = percent then
        match rest with
        | high :: low :: behind => do
            let high ← Text.hexValue? high
            let low ← Text.hexValue? low
            return (high * 16 + low).toUInt8 :: (← unescape? behind)
        | _ => none
      else (unescape? rest).map (byte :: ·)

/-- The path of the file that a URI names. A path that is not well escaped is taken as it is. -/
def toPath (uri : Text) : Text :=
  match uri.after? scheme with
  | some path => (unescape? path).getD path
  | none => uri

def ofPath (path : Text) : Text :=
  if path.startsWith "/" then scheme ++ path.flatMap escapeByte else path

end ScopeLint.Uri
