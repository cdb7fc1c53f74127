import ScopeLint.Text.Integer
import ScopeLint.Text.Quoted

/-!
The commands of the program, the flags that each of them takes, and what is wrong with flags that
it does not take.
-/

namespace ScopeLint

/-- What the program can be asked to do. The root command analyzes with no options. -/
inductive Command where
  | root
  | analyze
  | showLints
  | tokens
  | watch
  | serve
  | help
  deriving DecidableEq, Repr

namespace Command

def named : List Command := [analyze, showLints, tokens, watch, serve, help]

def name : Command → Text
  | root => "shelly"
  | analyze => "analyze"
  | showLints => "show-lints"
  | tokens => "tokens"
  | watch => "watch"
  | serve => "lsp"
  | help => "help"

def path : Command → Text
  | root => root.name
  | command => root.name ++ " " ++ command.name

def ofName? (name : Text) : Option Command := named.find? fun command => command.name = name

end Command

inductive FlagKind where
  | text
  /-- A truth value, which is true when it is left out. -/
  | switch
  | number
  deriving DecidableEq, Repr

inductive Flag where
  | config
  | directory
  | color
  | logLevel
  | help
  | json
  | debugParser
  | allow
  | warn
  | deny
  | capLints
  | exclude
  | guide
  | stdio
  | tcpPort
  deriving DecidableEq, Repr

namespace Flag

def name : Flag → Text
  | config => "config"
  | directory => "directory"
  | color => "color"
  | logLevel => "log-level"
  | help => "help"
  | json => "json"
  | debugParser => "debug-parser"
  | allow => "allow"
  | warn => "warn"
  | deny => "deny"
  | capLints => "cap-lints"
  | exclude => "exclude"
  | guide => "guide"
  | stdio => "stdio"
  | tcpPort => "port"

def letter? : Flag → Option UInt8
  | help => some (Text.byte 'h')
  | allow => some (Text.byte 'A')
  | warn => some (Text.byte 'W')
  | deny => some (Text.byte 'D')
  | _ => none

def kind : Flag → FlagKind
  | help | json | debugParser | guide | stdio => .switch
  | tcpPort => .number
  | _ => .text

/-- The flags that every command takes, help apart. -/
def shared : List Flag := [config, directory, color, logLevel]

def lintFlags : List Flag := [allow, warn, deny, capLints, exclude]

def ofCommand : Command → List Flag
  | .analyze => shared ++ [json, debugParser] ++ lintFlags
  | .watch => shared ++ lintFlags
  | .showLints => shared ++ [guide]
  | .serve => shared ++ [stdio, tcpPort]
  | .root | .tokens | .help => shared

def find? (flags : List Flag) (name : Text) : Option Flag := flags.find? fun flag => flag.name = name

def findLetter? (flags : List Flag) (letter : UInt8) : Option Flag :=
  flags.find? fun flag => flag.letter? = some letter

def shown (flag : Flag) : Text :=
  match flag.letter? with
  | some letter => "-" ++ [letter] ++ ", --" ++ flag.name
  | none => "--" ++ flag.name

end Flag

inductive FlagError where
  | badShape (argument : Text)
  | unknown (name : Text)
  /-- A letter that is no flag, with the letters from it on. -/
  | unknownLetter (letter : UInt8) (letters : Text)
  | valueMissing (argument : Text)
  | letterValueMissing (letter : UInt8) (letters : Text)
  | notASwitch (flag : Flag) (value : Text)
  | notANumber (flag : Flag) (value : Text) (fault : IntegerFault)
  deriving DecidableEq, Repr

namespace FlagError

def quotedLetter (letter : UInt8) : Text := Text.quoteChar (Char.ofNat letter.toNat)

def invalidValue (flag : Flag) (value reader : Text) (fault : IntegerFault) : Text :=
  "invalid argument " ++ value.quote ++ " for " ++ flag.shown.quote ++ " flag: strconv." ++ reader
    ++ ": parsing " ++ value.quote ++ ": " ++ fault.message

def message : FlagError → Text
  | badShape argument => "bad flag syntax: " ++ argument
  | unknown name => "unknown flag: --" ++ name
  | unknownLetter letter letters =>
      "unknown shorthand flag: " ++ quotedLetter letter ++ " in -" ++ letters
  | valueMissing argument => "flag needs an argument: " ++ argument
  | letterValueMissing letter letters =>
      "flag needs an argument: " ++ quotedLetter letter ++ " in -" ++ letters
  | notASwitch flag value => invalidValue flag value "ParseBool" .malformed
  | notANumber flag value fault => invalidValue flag value "ParseInt" fault

end FlagError

def truthValue? (text : Text) : Option Bool :=
  if (["1", "t", "T", "TRUE", "true", "True"].map Text.ofString).contains text then some true
  else if (["0", "f", "F", "FALSE", "false", "False"].map Text.ofString).contains text then
    some false
  else none

def Flag.bind (flag : Flag) (value : Text) : Except FlagError (Flag × Text) :=
  match flag.kind with
  | .text => .ok (flag, value)
  | .switch => if (truthValue? value).isSome then .ok (flag, value) else .error (.notASwitch flag value)
  | .number =>
      match Text.integer value with
      | .ok _ => .ok (flag, value)
      | .error fault => .error (.notANumber flag value fault)

end ScopeLint
