import CoolLexer.Command.Source
import CoolLexer.Json.Record

/-!
# Writing the tokens of a source

The command scans a source and writes its token stream. Lexical errors are part of the stream, so
only reading, writing and the options can fail, and nothing is written unless all before it has
succeeded. An output that fails may have taken a part of the tokens.
-/

namespace CoolLexer.Command

variable {m : Type → Type} [Monad m] [Storage m]

/-- What to scan, how, and where to write the tokens. -/
structure Lex where
  /-- A file; without one the standard input is read. -/
  input : Option Text := none
  /-- A file; without one the standard output is written. -/
  output : Option Text := none
  /-- The format; without one that of the configuration is used. -/
  format : Option OutputFormat := none
  overrides : LexerOverrides := {}
  config : Config := {}

/-- What a run has written. -/
structure LexOutcome where
  tokens : Nat
  errors : Nat
deriving Repr, DecidableEq

namespace Lex

/-- The format in which the tokens are written. -/
def effectiveFormat (command : Lex) : OutputFormat := command.format.getD command.config.format

def scan (command : Lex) (source : Text) : Except Failure TokenStream :=
  match lexerOptions command.config command.overrides with
  | .ok options => .ok (CoolLexer.scan source options).1
  | .error failure => .error failure

/-- A stream in the format of the command. -/
def render (command : Lex) (stream : TokenStream) : Text :=
  match command.effectiveFormat.separator? with
  | some sep => stream.render sep
  | none => stream.renderJson

/-- Writes to the output of the command. -/
def write (command : Lex) (content : Text) : m (Except Failure Unit) :=
  match command.output with
  | some path => do
      match ← Storage.writeFile path content with
      | .ok () => return .ok ()
      | .error cause => return .error (.cannotWrite path cause)
  | none => do
      match ← Storage.write content with
      | .ok () => return .ok ()
      | .error cause => return .error (.io cause)

/-- Reads the source, scans it and writes its tokens. -/
def run (command : Lex) : m (Except Failure LexOutcome) := do
  match ← readSource command.input with
  | .error failure => return .error failure
  | .ok (_, source) =>
      match command.scan source with
      | .error failure => return .error failure
      | .ok stream =>
          match ← command.write (command.render stream) with
          | .error failure => return .error failure
          | .ok () => return .ok ⟨stream.size, stream.errorCount⟩

end Lex

end CoolLexer.Command
