/-!
# Lexer options
-/

namespace CoolLexer

/-- The options that change how a source is scanned. The defaults scan standard Cool. -/
structure LexerConfig where
  /-- The longest value that a string literal may have, in characters. -/
  maxStringLength : Nat := 1024
  /-- Whether `--` starts a comment that runs to the end of the line. -/
  lineComments : Bool := false
deriving Repr, DecidableEq

namespace LexerConfig

def withMaxStringLength (config : LexerConfig) (limit : Nat) : LexerConfig :=
  { config with maxStringLength := limit }

def withLineComments (config : LexerConfig) (enabled : Bool) : LexerConfig :=
  { config with lineComments := enabled }

end LexerConfig

end CoolLexer
