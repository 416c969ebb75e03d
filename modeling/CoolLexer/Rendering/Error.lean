import CoolLexer.Token.Basic

/-!
# Rendering errors

Why a text is not the rendering of a token stream. Tokens are counted from zero.
-/

namespace CoolLexer

inductive RenderingError where
  | unknownKind (index : Nat) (name : Text)
  | missingValue (index : Nat) (kind : Kind)
  | unexpectedValue (index : Nat) (kind : Kind)
  | invalidValue (index : Nat) (kind : Kind) (value : Text)
  | unterminatedValue (index : Nat) (kind : Kind)
  | missingSeparator (index : Nat)
  /-- An illegal token whose value is the message of no lexical error. -/
  | unknownErrorMessage (message : Text)
  | missingEnd
  | textAfterEnd
deriving Repr, DecidableEq

/-- The error of the token at `index` whose kind and value do not go together. -/
def ValueError.at (index : Nat) : ValueError → RenderingError
  | .missing kind => .missingValue index kind
  | .unexpected kind => .unexpectedValue index kind
  | .invalid kind value => .invalidValue index kind value
  | .unknownMessage message => .unknownErrorMessage message

namespace RenderingError

/-- The words that say which token is wrong. -/
def place (index : Nat) : Text := "token ".toList ++ Text.ofNat index ++ ": ".toList

def message : RenderingError → Text
  | unknownKind index name =>
      place index ++ "unknown token kind `".toList ++ name ++ "`".toList
  | missingValue index kind => place index ++ kind.name ++ " requires a value".toList
  | unexpectedValue index kind => place index ++ kind.name ++ " does not take a value".toList
  | invalidValue index kind value =>
      place index ++ "invalid ".toList ++ kind.name ++ " value `".toList ++ value ++ "`".toList
  | unterminatedValue index kind =>
      place index ++ "unterminated value for ".toList ++ kind.name
  | missingSeparator index =>
      place index ++ "expected a line break after the token".toList
  | unknownErrorMessage message =>
      "unknown lexical error message `".toList ++ message ++ "`".toList
  | missingEnd => "token stream does not end with END".toList
  | textAfterEnd => "unexpected text after END".toList

end RenderingError

end CoolLexer
