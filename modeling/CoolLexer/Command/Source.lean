import CoolLexer.Failure
import CoolLexer.FileSystem.Path
import CoolLexer.Lexer.Scan

/-!
# The source of a command

Both commands read one source, from a file or from the standard input, and scan it with the options
of the configuration and the command line.
-/

namespace CoolLexer.Command

variable {m : Type → Type} [Monad m] [Storage m]

def standardInputName : Text := "<stdin>".toList

/-- The file to read; without one, and for the path `-`, the standard input is read. -/
def inputFile? (input : Option Text) : Option Text :=
  input.filter fun path => Path.components path ≠ [['-']]

/-- The display name and the text of a source. -/
def readSource (input : Option Text) : m (Except Failure (Text × Text)) := do
  match inputFile? input with
  | some path =>
      match ← Storage.readText path with
      | .ok text => return .ok (path, text)
      | .error cause => return .error (.cannotRead path cause)
  | none =>
      match ← Storage.readInputText with
      | .ok text => return .ok (standardInputName, text)
      | .error cause => return .error (.io cause)

/-- The lexer options of a run. -/
def lexerOptions (config : Config) (overrides : LexerOverrides) : Except Failure LexerConfig :=
  match overrides.apply? config.lexer with
  | some options => .ok options
  | none => .error .zeroLength

end CoolLexer.Command
