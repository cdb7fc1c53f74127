import ScopeLint.CommandLine.Flag

/-!
The arguments of a run: which command they ask for, the flags in the order they were given, and
what is left. Flags may stand in front of the command and behind it. While the command is being
looked for, a flag that is not known to be a switch is taken to have its value in the next
argument, even if it turns out later that there is no such flag.
-/

namespace ScopeLint

structure Arguments where
  command : Command
  /-- Flags with their values, in the order they were given. -/
  flags : List (Flag × Text) := []
  /-- The arguments that are no flags. -/
  rest : List Text := []
  deriving DecidableEq, Repr

namespace Arguments

def dash : UInt8 := 0x2D

def equals : UInt8 := 0x3D

def endOfFlags : Text := "--"

/-- Whether the root command takes the next argument for the value of this one. -/
def takesNext (argument : Text) : Bool :=
  let isSwitch := fun flag : Option Flag => flag.map Flag.kind = some .switch
  let flags := Flag.ofCommand .root
  !argument.elem equals &&
    (if argument.startsWith "--" then !isSwitch (Flag.find? flags (argument.drop 2))
    else match argument with
      | [first, letter] => first = dash && !isSwitch (Flag.findLetter? flags letter)
      | _ => false)

/-- The first argument that is neither a flag nor the value of one. A value at the very end
leaves nothing to look for. -/
def firstWord? : (skip : Bool) → List Text → Option Text
  | _, [] => none
  | true, _ :: rest => if rest.isEmpty then none else firstWord? false rest
  | false, argument :: rest =>
      if argument = endOfFlags then none
      else if takesNext argument then firstWord? true rest
      else if argument ≠ [] && !argument.startsWith "-" then some argument
      else firstWord? false rest

/-- The arguments without the first one that is `word` and not the value of a flag. -/
def removeWord (word : Text) : (skip : Bool) → List Text → List Text
  | _, [] => []
  | true, argument :: rest => argument :: removeWord word false rest
  | false, argument :: rest =>
      if argument = endOfFlags then argument :: rest
      else if takesNext argument then argument :: removeWord word true rest
      else if argument = word then rest
      else argument :: removeWord word false rest

def split (arguments : List Text) : Command × List Text :=
  match (firstWord? false arguments).bind fun word => (Command.ofName? word).map (word, ·) with
  | some (word, command) => (command, removeWord word false arguments)
  | none => (.root, arguments)

/-- A flag that still waits for its value, with the error when there is none. -/
abbrev Waiting := Option (Flag × FlagError)

def named (flags : List Flag) (argument : Text) :
    Except FlagError (List (Flag × Text) × Waiting) := do
  let body := argument.drop 2
  if body.isEmpty || body.head? = some dash || body.head? = some equals then
    .error (.badShape argument)
  let (name, value) := Text.cutAt body [equals]
  let some flag := Flag.find? flags name | .error (.unknown name)
  match value with
  | some value => return ([← flag.bind value], none)
  | none =>
      if flag.kind = .switch then return ([← flag.bind "true"], none)
      else return ([], some (flag, .valueMissing argument))

/-- Letters of this kind of test flags are passed over. -/
def testLetters : Text := "test."

/-- Flags given by letters, of which the last may have its value right behind it or wait for
it. -/
def lettered (flags : List Flag) : (letters : Text) →
    Except FlagError (List (Flag × Text) × Waiting)
  | [] => .ok ([], none)
  | letter :: rest => do
      if testLetters.isPrefixOf (letter :: rest) then return ([], none)
      let some flag := Flag.findLetter? flags letter
        | .error (.unknownLetter letter (letter :: rest))
      let assigned := rest.head? = some equals && 1 < rest.length
      if assigned then return ([← flag.bind (rest.drop 1)], none)
      else if flag.kind = .switch then
        let first ← flag.bind "true"
        let (others, waiting) ← lettered flags rest
        return (first :: others, waiting)
      else if rest.isEmpty then return ([], some (flag, .letterValueMissing letter [letter]))
      else return ([← flag.bind rest], none)

/-- One argument while no flag waits for a value. -/
inductive Part where
  | flags (given : List (Flag × Text)) (waiting : Waiting)
  | word (word : Text)
  | endOfFlags

def read (flags : List Flag) (argument : Text) : Except FlagError Part :=
  match argument with
  | first :: second :: rest =>
      if first ≠ dash then .ok (.word argument)
      else if second = dash then
        if rest.isEmpty then .ok .endOfFlags
        else (named flags argument).map fun (given, waiting) => .flags given waiting
      else (lettered flags (second :: rest)).map fun (given, waiting) => .flags given waiting
  | _ => .ok (.word argument)

def parseFrom (flags : List Flag) : Waiting → List Text → Except FlagError (List (Flag × Text) × List Text)
  | none, [] => .ok ([], [])
  | some (_, error), [] => .error error
  | some (flag, _), value :: rest => do
      let first ← flag.bind value
      let (given, words) ← parseFrom flags none rest
      return (first :: given, words)
  | none, argument :: rest => do
      match ← read flags argument with
      | .word word =>
          let (given, words) ← parseFrom flags none rest
          return (given, word :: words)
      | .endOfFlags => return ([], rest)
      | .flags first waiting =>
          let (given, words) ← parseFrom flags waiting rest
          return (first ++ given, words)

def parse (arguments : List Text) : Except FlagError Arguments := do
  let (command, arguments) := split arguments
  let (flags, rest) ← parseFrom (Flag.help :: Flag.ofCommand command) none arguments
  return { command, flags, rest }

def values (arguments : Arguments) (flag : Flag) : List Text :=
  (arguments.flags.filter fun given => given.1 = flag).map Prod.snd

/-- The value of a flag, the last one that it was given. -/
def value? (arguments : Arguments) (flag : Flag) : Option Text := (arguments.values flag).getLast?

def isOn (arguments : Arguments) (flag : Flag) : Bool :=
  ((arguments.value? flag).bind truthValue?).getD false

def restFault? (arguments : Arguments) : Option Text :=
  match arguments.command, arguments.rest with
  | .help, _ => none
  | .tokens, words =>
      if words.length ≤ 1 then none
      else some ("accepts at most 1 arg(s), received " ++ Text.ofNat words.length)
  | _, [] => none
  | command, word :: _ => some ("unknown command " ++ word.quote ++ " for " ++ command.path.quote)

end Arguments

end ScopeLint
