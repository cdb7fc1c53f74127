import ScopeLint.Text.Case
import ScopeLint.Text.Quoted

/-!
Log entries and how they are written. Entries are values that functions return beside their
results; what is shown of them is decided where they are printed.
-/

namespace ScopeLint

/-- How important a log entry is, the most important first. -/
inductive LogLevel where
  | panic
  | fatal
  | error
  | warning
  | info
  | debug
  | trace
  deriving DecidableEq, Repr

namespace LogLevel

def rank : LogLevel → Nat
  | panic => 0
  | fatal => 1
  | error => 2
  | warning => 3
  | info => 4
  | debug => 5
  | trace => 6

def text : LogLevel → Text
  | panic => "panic"
  | fatal => "fatal"
  | error => "error"
  | warning => "warning"
  | info => "info"
  | debug => "debug"
  | trace => "trace"

/-- The names of the levels; one of them has two. -/
def names : List (String × LogLevel) :=
  [("panic", panic), ("fatal", fatal), ("error", error), ("warn", warning), ("warning", warning),
    ("info", info), ("debug", debug), ("trace", trace)]

def parse? (name : Text) : Option LogLevel :=
  (names.find? fun entry => Text.ofString entry.1 = name.lower).map Prod.snd

end LogLevel

inductive LogValue where
  | text (value : Text)
  | number (value : Nat)
  deriving DecidableEq, Repr

def LogValue.plain : LogValue → Text
  | text value => value
  | number value => Text.ofNat value

structure LogEntry where
  level : LogLevel
  message : Text
  fields : List (Text × LogValue)
  deriving DecidableEq, Repr

namespace LogEntry

def isBareByte (byte : UInt8) : Bool :=
  (0x61 ≤ byte && byte ≤ 0x7A) || (0x41 ≤ byte && byte ≤ 0x5A) || (0x30 ≤ byte && byte ≤ 0x39)
    || (Text.ofString "-._/@^+").elem byte

/-- A value is quoted unless it is a plain word. -/
def formatValue (value : Text) : Text :=
  if value ≠ [] && value.all isBareByte then value else value.quote

/-- A log line: the level, the message, and the fields in the order of their names. -/
def line (entry : LogEntry) : Text :=
  let fields := entry.fields.mergeSort fun left right => Text.le left.1 right.1
  let shown : List Text := fields.map fun (name, value) =>
    " " ++ name ++ "=" ++ formatValue value.plain
  "level=" ++ entry.level.text ++ " msg=" ++ formatValue entry.message ++ shown.flatten ++ "\n"

def lines (level : LogLevel) (entries : List LogEntry) : Text :=
  (entries.filter fun entry => entry.level.rank ≤ level.rank).flatMap line

end LogEntry

end ScopeLint
