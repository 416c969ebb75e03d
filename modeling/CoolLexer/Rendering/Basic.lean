import CoolLexer.Token.Stream

/-!
# Rendered token streams

A rendering writes one token after another, with a separator between them and a newline at the end.
Values are written as they are, so that a value may itself hold a parenthesis or a separator.
-/

namespace CoolLexer

/-- What stands between two rendered tokens. -/
inductive Separator where
  | newline
  | space
deriving Repr, DecidableEq

namespace Separator

def char : Separator → Char
  | newline => '\n'
  | space => ' '

/-- Whether `c` is read as the end of a token: a newline always is. -/
def accepts (sep : Separator) (c : Char) : Bool := c == sep.char || c == '\n'

end Separator

def renderTokens (tokens : List Token) (sep : Separator) : Text :=
  [sep.char].intercalate (tokens.map Token.render) ++ ['\n']

def TokenStream.render (stream : TokenStream) (sep : Separator := .newline) : Text :=
  renderTokens stream.tokens sep

end CoolLexer
