import CoolLexer.Lexer.Basic

/-!
# Scanning a source
-/

namespace CoolLexer

/-- The tokens of a source, and the diagnostics of its lexical errors. -/
def scan (source : Text) (config : LexerConfig := {}) (file : FileId := 0) :
    TokenStream × DiagnosticLog :=
  let (stream, lexer) := (Lexer.start source config file).tokenize
  (stream, lexer.log)

end CoolLexer
