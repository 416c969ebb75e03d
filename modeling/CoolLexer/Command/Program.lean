import CoolLexer.Command.Line
import CoolLexer.Config.Store

/-!
# The program

A run reads the command line, loads the configuration and carries out the command. Its status is 0
if that succeeds, 1 if something fails or a check finds errors, and 2 if the command line is wrong.
Telling the version or the usage succeeds even where the output fails.
-/

namespace CoolLexer.Command

variable {m : Type → Type} [Monad m] [Storage m]

inductive Status where
  | success
  | failure
  | misuse
deriving Repr, DecidableEq

/-- The number that tells the system how a run has ended. -/
def Status.code : Status → Nat
  | success => 0
  | failure => 1
  | misuse => 2

/-- The line that tells the version of the program or of one of its commands. -/
def versionText (command : Option Name) : Text :=
  let suffix := match command with
    | some name => '-' :: name.text
    | none => []
  "coolt".toList ++ suffix ++ " 0.1.0\n".toList

/-- How the program is used. -/
def usageText : Text :=
  ("Usage: coolt [-v] [-c PATH] [--no-color] COMMAND\n\n" ++
    "  lex [INPUT] [-o PATH] [-F lines|spaced|json] [--line-comments] [--max-string-length N]\n" ++
    "  check [INPUT] [--line-comments] [--max-string-length N]\n").toList

def fail (context : String) (failure : Failure) : m Status := do
  Storage.writeMessage (failure.report context.toList)
  return .failure

/-- The command that a command line gives, if it is to write the tokens. -/
def Given.lex (given : Given) (config : Config) : Lex where
  input := given.value? .input
  output := given.value? .output
  format := (given.value? .format).bind OutputFormat.ofName?
  overrides := given.overrides
  config

/-- The command that a command line gives, if it is to check the source. -/
def Given.check (given : Given) (config : Config) : Check where
  input := given.value? .input
  overrides := given.overrides
  config

def runCommand (config : Config) (given : Given) : Name → m Status
  | .lex => do
      match ← (given.lex config).run with
      | .ok _ => return .success
      | .error failure => fail "lex failed" failure
  | .check => do
      match ← (given.check config).run with
      | .ok report => return if report.isClean then .success else .failure
      | .error failure => fail "check failed" failure

/-- Loads the configuration from a given file or from the usual places. -/
def loadConfig (directories : ConfigDirectories) : Option Text → m (Except Failure Config)
  | some path => Config.loadFrom path
  | none => Config.load directories

/-- Runs the program with the arguments after its name. -/
def run (directories : ConfigDirectories) (environment : Environment) (arguments : List Text) :
    m Status := do
  match Request.ofArguments environment arguments with
  | .misuse =>
      Storage.writeMessage usageText
      return .misuse
  | .version command =>
      let _ ← Storage.write (versionText command)
      return .success
  | .help =>
      let _ ← Storage.write usageText
      return .success
  | .run path name given =>
      match ← loadConfig directories path with
      | .ok config => runCommand config given name
      | .error failure => fail "failed to load configuration" failure

end CoolLexer.Command
