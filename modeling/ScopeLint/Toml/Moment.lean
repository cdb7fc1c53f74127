import ScopeLint.Toml.Number

/-!
Dates and times of a TOML document. A day has to exist in its month, seconds may be left out, and
only a date with a time takes an offset. A blank or a small letter is as good as the capital that
stands between date and time or for the offset zero.
-/

namespace ScopeLint.Toml

/-- A number of exactly `count` digits, and what follows it. -/
def fixedNumber? (count : Nat) (text : Text) : Option (Nat × Text) := do
  let digits ← (text.take count).mapM (digit? 10)
  if digits.length = count then some (ofDigits 10 digits, text.drop count) else none

def isLeapYear (year : Nat) : Bool := year % 4 = 0 && (year % 100 ≠ 0 || year % 400 = 0)

/-- The number of days of a month, none for a number that is no month. -/
def daysIn (year month : Nat) : Nat :=
  if month = 2 then (if isLeapYear year then 29 else 28)
  else [0, 31, 0, 31, 30, 31, 30, 31, 31, 30, 31, 30, 31].getD month 0

def afterDate? (text : Text) : Option Text := do
  let (year, text) ← fixedNumber? 4 text
  let (month, text) ← fixedNumber? 2 (← text.after? "-")
  let (day, text) ← fixedNumber? 2 (← Text.after? text "-")
  if 1 ≤ day && day ≤ daysIn year month then some text else none

/-- What follows a fraction of a second, which is a point with digits behind it. -/
def afterFraction (text : Text) : Text :=
  match text.after? "." with
  | some rest =>
      let behind := rest.dropWhile fun byte => (digit? 10 byte).isSome
      if behind.length < rest.length then behind else text
  | none => text

def afterTime? (text : Text) : Option Text := do
  let (hour, text) ← fixedNumber? 2 text
  let (minute, text) ← fixedNumber? 2 (← text.after? ":")
  if 24 ≤ hour || 60 ≤ minute then none
  else match Text.after? text ":" with
    | none => some text
    | some rest => do
        let (second, text) ← fixedNumber? 2 rest
        if 60 ≤ second then none else some (afterFraction text)

/-- What follows an offset, the text itself when there is none. -/
def afterOffset? (text : Text) : Option Text :=
  match text with
  | [] => some []
  | sign :: rest =>
      if sign = Text.byte 'Z' then some rest
      else if sign = Text.byte '+' || sign = Text.byte '-' then do
        let (hours, rest) ← fixedNumber? 2 rest
        let (minutes, rest) ← fixedNumber? 2 (← Text.after? rest ":")
        if 24 < hours || 60 < minutes then none else some rest
      else none

/-- The capital that a blank or a small letter stands for. -/
def momentByte (byte : UInt8) : UInt8 :=
  if byte = Text.byte 'z' then Text.byte 'Z'
  else if byte = Text.byte 't' || byte = Text.byte ' ' then Text.byte 'T'
  else byte

def isMoment (text : Text) : Bool :=
  let text := text.map momentByte
  match afterDate? text with
  | some [] => true
  | some rest => ((Text.after? rest "T").bind afterTime?).bind afterOffset? = some []
  | none => afterTime? text = some []

end ScopeLint.Toml
