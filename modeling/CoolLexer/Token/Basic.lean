import CoolLexer.Token.Kind
import CoolLexer.Token.LexicalError

/-!
# Tokens

A token is a kind together with the value that tokens of the kind carry. Kind and value determine
the token, and `ofParts` says which pairs of them are tokens.
-/

namespace CoolLexer

inductive Token where
  | symbol (s : Symbol)
  | keyword (k : Keyword)
  | boolean (value : Bool)
  /-- A word that starts with a capital. -/
  | className (name : Text)
  /-- A word that starts with a small letter. -/
  | identifier (name : Text)
  /-- Decimal digits as they are written. -/
  | integer (digits : Text)
  /-- The value of a string literal, without quotes and escapes. -/
  | string (value : Text)
  | illegal (error : LexicalError)
  /-- The last token of every scanned stream. -/
  | endOfInput
deriving Repr, DecidableEq

/-- Why a kind and a value do not make a token. -/
inductive ValueError where
  | missing (kind : Kind)
  | unexpected (kind : Kind)
  | invalid (kind : Kind) (value : Text)
  | unknownMessage (message : Text)
deriving Repr, DecidableEq

namespace Token

def kind : Token → Kind
  | symbol s => .symbol s
  | keyword k => .keyword k
  | boolean _ => .boolean
  | className _ => .className
  | identifier _ => .identifier
  | integer _ => .integer
  | string _ => .string
  | illegal _ => .illegal
  | endOfInput => .endOfInput

def booleanText (value : Bool) : Text := if value then "true".toList else "false".toList

def value? : Token → Option Text
  | boolean value => some (booleanText value)
  | className name => some name
  | identifier name => some name
  | integer digits => some digits
  | string value => some value
  | illegal error => some error.message
  | symbol _ | keyword _ | endOfInput => none

def ofParts : Kind → Option Text → Except ValueError Token
  | .symbol s, none => .ok (symbol s)
  | .keyword k, none => .ok (keyword k)
  | .endOfInput, none => .ok endOfInput
  | .boolean, some value =>
      if value = booleanText true then .ok (boolean true)
      else if value = booleanText false then .ok (boolean false)
      else .error (.invalid .boolean value)
  | .className, some value =>
      if value.isEmpty then .error (.invalid .className value) else .ok (className value)
  | .identifier, some value =>
      if value.isEmpty then .error (.invalid .identifier value) else .ok (identifier value)
  | .integer, some value =>
      if value.isEmpty || !value.all Char.isDigit then .error (.invalid .integer value)
      else .ok (integer value)
  | .string, some value => .ok (string value)
  | .illegal, some value =>
      match LexicalError.ofMessage? value with
      | some error => .ok (illegal error)
      | none => .error (.unknownMessage value)
  | kind, none => .error (.missing kind)
  | kind, some _ => .error (.unexpected kind)

/-- The token as it is rendered: the name of its kind, and its value in parentheses. -/
def render (token : Token) : Text :=
  match token.value? with
  | some value => token.kind.name ++ '(' :: value ++ [')']
  | none => token.kind.name

def isIllegal : Token → Bool
  | illegal _ => true
  | _ => false

def isEnd : Token → Bool
  | endOfInput => true
  | _ => false

theorem isEnd_iff {token : Token} : token.isEnd = true ↔ token = endOfInput := by
  cases token <;> simp [isEnd]

def error? : Token → Option LexicalError
  | illegal error => some error
  | _ => none

def ofReserved? (word : Text) : Option Token :=
  if word = booleanText true then some (boolean true)
  else if word = booleanText false then some (boolean false)
  else (Keyword.ofSpelling? word).map keyword

/-- The token of a word: a reserved word, or a name sorted by its first letter. -/
def ofWord (word : Text) : Token :=
  match ofReserved? word with
  | some token => token
  | none => if word.head?.any Char.isUpper then className word else identifier word

end Token

end CoolLexer
