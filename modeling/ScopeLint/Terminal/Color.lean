import ScopeLint.Text.Case
import ScopeLint.Text.Quoted

/-!
Terminal colours: the escape sequences, and when to use them.
-/

namespace ScopeLint

inductive Style where
  | red
  | green
  | yellow
  | blue
  | cyan
  | bold
  | boldRed
  | boldYellow
  | boldBlue
  | boldCyan
  | reset
  deriving DecidableEq, Repr

def Style.escape : Style → Text
  | red => "\x1b[31m"
  | green => "\x1b[32m"
  | yellow => "\x1b[33m"
  | blue => "\x1b[34m"
  | cyan => "\x1b[36m"
  | bold => "\x1b[1m"
  | boldRed => "\x1b[1;31m"
  | boldYellow => "\x1b[1;33m"
  | boldBlue => "\x1b[1;34m"
  | boldCyan => "\x1b[1;36m"
  | reset => "\x1b[0m"

def Style.when (style : Style) (colored : Bool) : Text := if colored then style.escape else []

inductive ColorMode where
  | auto
  | always
  | never
  deriving DecidableEq, Repr

namespace ColorMode

def text : ColorMode → Text
  | auto => "auto"
  | always => "always"
  | never => "never"

/-- Reads a colour mode in any letter case; an empty text means `auto`. -/
def parse (text : Text) : Except Text ColorMode :=
  let name := text.lower
  if name = [] || name = auto.text then .ok auto
  else if name = always.text then .ok always
  else if name = never.text then .ok never
  else .error ("invalid color mode " ++ text.quote ++ ": want auto, always or never")

def colorsPlainOutput (mode : ColorMode) : Bool := mode = always

end ColorMode

end ScopeLint
