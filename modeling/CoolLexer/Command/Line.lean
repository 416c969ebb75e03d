import CoolLexer.Command.Check
import CoolLexer.Command.Lex

/-!
# Command lines

A command line has two levels: options in front of the name of a command, and those after it. Some
options may stand at both levels, but none twice at one level. An option whose value is the next
argument waits for it; the value is examined when the next option begins or the level ends.
-/

namespace CoolLexer.Command

inductive Name where
  | lex
  | check
deriving Repr, DecidableEq

/-- The options without a value. -/
inductive Switch where
  | verbose
  | noColor
  | lineComments
  | version
  | help
deriving Repr, DecidableEq

/-- What is given by a value. -/
inductive Setting where
  | config
  | output
  | format
  | maxStringLength
  /-- The source, which is given without the name of an option. -/
  | input
deriving Repr, DecidableEq

/-- An option of either sort. -/
inductive Flag where
  | switch (s : Switch)
  | setting (s : Setting)
deriving Repr, DecidableEq

namespace Name

def text : Name → Text
  | lex => "lex".toList
  | check => "check".toList

/-- The command with a given name, which may not be shortened. -/
def ofText? (name : Text) : Option Name := [lex, check].find? (·.text == name)

end Name

namespace Flag

/-- The options of every level, with their long names and, if they have one, their letters. -/
def common : List (Text × Option Char × Flag) := [
  ("verbose".toList, some 'v', switch .verbose),
  ("config".toList, some 'c', setting .config),
  ("no-color".toList, none, switch .noColor),
  ("help".toList, some 'h', switch .help),
  ("version".toList, some 'V', switch .version)]

def scanning : List (Text × Option Char × Flag) := [
  ("line-comments".toList, none, switch .lineComments),
  ("max-string-length".toList, none, setting .maxStringLength)]

def writing : List (Text × Option Char × Flag) := [
  ("output".toList, some 'o', setting .output),
  ("format".toList, some 'F', setting .format)]

/-- The options of a level; the first level is that of no command. -/
def table : Option Name → List (Text × Option Char × Flag)
  | none => common
  | some .check => common ++ scanning
  | some .lex => common ++ scanning ++ writing

/-- The option with a long name, which may not be shortened. -/
def ofLong? (level : Option Name) (name : Text) : Option Flag :=
  ((table level).find? (·.1 == name)).map (·.2.2)

def ofLetter? (level : Option Name) (letter : Char) : Option Flag :=
  ((table level).find? (·.2.1 == some letter)).map (·.2.2)

end Flag

/-- One more than the greatest number that an option can have for its value. -/
def numberBound : Nat := 18446744073709551616

/-- The number that a value of an option denotes: digits, perhaps after a plus, of at most 64
bits. -/
def number? (value : Text) : Option Nat :=
  let digits := if value.head? = some '+' then value.tail else value
  if digits.isEmpty || !digits.all Char.isDigit then none
  else if Text.decimal digits < numberBound then some (Text.decimal digits)
  else none

/-- Whether a setting can have a given value. No path is empty. -/
def Setting.accepts : Setting → Text → Bool
  | config, value | output, value | input, value => !value.isEmpty
  | format, value => (OutputFormat.ofName? value).isSome
  | maxStringLength, value => (number? value).isSome

/-- What has been given at a level. -/
structure Given where
  switches : List Switch := []
  settings : List (Setting × Text) := []
  /-- The setting begun last, with its value once that has been found. -/
  pending : Option (Setting × Option Text) := none
deriving Repr, DecidableEq

namespace Given

def value? (given : Given) (setting : Setting) : Option Text := given.settings.lookup setting

/-- Adds a setting, which may be given once only. -/
def give (given : Given) (setting : Setting) (value : Text) : Option Given :=
  if setting.accepts value && (given.value? setting).isNone then
    some { given with settings := (setting, value) :: given.settings }
  else none

/-- Examines the setting that is pending. -/
def resolve (given : Given) : Option Given :=
  match given.pending with
  | none => some given
  | some (_, none) => none
  | some (setting, some value) => { given with pending := none }.give setting value

/-- Adds a switch, which may be given once only. -/
def switchOn (given : Given) (switch : Switch) : Option Given := do
  let given ← given.resolve
  if given.switches.contains switch then none
  else some { given with switches := switch :: given.switches }

/-- Adds a setting together with its value. -/
def set (given : Given) (setting : Setting) (value : Text) : Option Given := do
  (← given.resolve).give setting value

/-- Begins a setting whose value is the next argument. -/
def await (given : Given) (setting : Setting) : Option Given := do
  return { ← given.resolve with pending := some (setting, none) }

/-- Takes an argument that is no option. Only a command has an input. -/
def take (given : Given) (level : Option Name) (argument : Text) : Option Given :=
  match given.pending with
  | some (setting, none) => some { given with pending := some (setting, some argument) }
  | _ => do
      let given ← given.resolve
      if level.isNone || (given.value? .input).isSome then none
      else some { given with pending := some (.input, some argument) }

/-- Whether the next argument is the value of an option. -/
def isAwaiting (given : Given) : Bool :=
  match given.pending with
  | some (_, none) => true
  | _ => false

end Given

/-- How the reading of a level ends. -/
inductive Ending where
  | misuse
  /-- The version is asked for, before anything wrong has been found. -/
  | version
  | help
  | complete (given : Given)
  | command (given : Given) (name : Name) (arguments : List Text)
deriving Repr, DecidableEq

namespace Ending

/-- Goes on with what has been given, unless that is wrong. -/
def continueWith (given : Option Given) (next : Given → Ending) : Ending :=
  match given with
  | some given => next given
  | none => misuse

/-- Takes a switch; two of them end the reading at once. -/
def ofSwitch (given : Given) (switch : Switch) (next : Given → Ending) : Ending :=
  continueWith (given.switchOn switch) fun given =>
    match switch with
    | .version => version
    | .help => help
    | _ => next given

/-- Takes an option with a long name: the part of the argument after its two hyphens. -/
def ofLong (level : Option Name) (given : Given) (argument : Text) (next : Given → Ending) :
    Ending :=
  match Flag.ofLong? level (argument.takeWhile (· != '=')), argument.dropWhile (· != '=') with
  | some (.switch s), [] => ofSwitch given s next
  | some (.setting s), [] => continueWith (given.await s) next
  | some (.setting s), _ :: value => continueWith (given.set s value) next
  | _, _ => misuse

/-- Takes the options whose letters stand together. The first of them that has a value has the rest
of the letters for it, if there are any. -/
def ofLetters (level : Option Name) (given : Given) (next : Given → Ending) : Text → Ending
  | [] => next given
  | letter :: rest =>
      match Flag.ofLetter? level letter with
      | some (.switch s) => ofSwitch given s fun given => ofLetters level given next rest
      | some (.setting s) =>
          match rest with
          | [] => continueWith (given.await s) next
          | '=' :: value => continueWith (given.set s value) next
          | value => continueWith (given.set s value) next
      | none => misuse

/-- Takes the arguments after the word that asks for help: at most the name of a command. -/
def ofHelp : List Text → Ending
  | [] => help
  | [topic] => if topic = "help".toList || (Name.ofText? topic).isSome then help else misuse
  | _ => misuse

/-- Reads the arguments of a level; after two hyphens (`plain`) none of them is an option. -/
def ofArguments (level : Option Name) (plain : Bool) (given : Given) : List Text → Ending
  | [] => complete given
  | argument :: rest =>
      let next := fun given => ofArguments level plain given rest
      if plain then
        if given.isAwaiting then misuse else continueWith (given.take level argument) next
      else
        match argument with
        | ['-', '-'] => if given.isAwaiting then misuse else ofArguments level true given rest
        | '-' :: '-' :: long => ofLong level given long next
        | '-' :: letter :: letters => ofLetters level given next (letter :: letters)
        | _ =>
            match level, given.isAwaiting, Name.ofText? argument with
            | none, false, some name => command given name rest
            | none, false, none => if argument = "help".toList then ofHelp rest else misuse
            | _, _, _ => continueWith (given.take level argument) next

end Ending

/-- The values of the variables that stand in for options, where they are set. -/
structure Environment where
  config : Option Text := none
  verbose : Option Text := none
  noColor : Option Text := none
deriving Repr, DecidableEq

namespace Environment

/-- Whether a variable that stands in for a switch can have a given value. -/
def isSwitchText (value : Text) : Bool := value = "true".toList || value = "false".toList

/-- Whether the variables for the options not given at a level have values that these can take. -/
def suits (environment : Environment) (given : Given) : Bool :=
  (given.switches.contains .verbose || environment.verbose.all isSwitchText) &&
    (given.switches.contains .noColor || environment.noColor.all isSwitchText) &&
    ((given.value? .config).isSome || environment.config.all Setting.config.accepts)

end Environment

/-- What a command line asks for. -/
inductive Request where
  | misuse
  | version (command : Option Name)
  | help
  /-- A command with the path of its configuration file, if one is given. -/
  | run (config : Option Text) (name : Name) (given : Given)
deriving Repr, DecidableEq

namespace Request

/-- The options of a level once it has been read, if they and the environment are right. -/
def finish (environment : Environment) (given : Given) : Option Given :=
  given.resolve.filter environment.suits

/-- What the arguments after the name of a program ask for. -/
def ofArguments (environment : Environment) (arguments : List Text) : Request :=
  match Ending.ofArguments none false {} arguments with
  | .misuse | .complete _ => misuse
  | .version => version none
  | .help => help
  | .command outer name rest =>
      match Ending.ofArguments (some name) false {} rest with
      | .misuse | .command .. => misuse
      | .version => version (some name)
      | .help => help
      | .complete inner =>
          match finish environment inner, finish environment outer with
          | some inner, some outer =>
              let config := inner.value? .config <|> outer.value? .config <|> environment.config
              run config name inner
          | _, _ => misuse

end Request

/-- The lexer options that a command line gives. -/
def Given.overrides (given : Given) : LexerOverrides where
  lineComments := given.switches.contains .lineComments
  maxStringLength := (given.value? .maxStringLength).bind number?

end CoolLexer.Command
