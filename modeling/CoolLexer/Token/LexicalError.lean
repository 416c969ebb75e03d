import CoolLexer.Diagnostic.Code

/-!
# Lexical errors

A lexical error never stops the scan: it travels in the token stream as an illegal token and is also
reported as a diagnostic. The two errors at the end of input leave nothing to scan.
-/

namespace CoolLexer

inductive LexicalError where
  /-- A character that begins no token. -/
  | illegalCharacter (c : Char)
  /-- A string whose value is longer than the limit. -/
  | stringTooLong
  /-- A string with a NUL character, plain or escaped. -/
  | stringContainsNull
  /-- A string broken by a newline that is not escaped. -/
  | unterminatedString
  | endOfInputInString
  /-- A `*)` outside of every comment. -/
  | unmatchedCommentClose
  | endOfInputInComment
deriving Repr, DecidableEq

namespace LexicalError

/-- What the message of an illegal character starts with. -/
def illegalCharacterLead : Text := "Illegal character ".toList

def message : LexicalError → Text
  | illegalCharacter c => illegalCharacterLead ++ [c]
  | stringTooLong => "String constant too long".toList
  | stringContainsNull => "String contains null character".toList
  | unterminatedString => "Unterminated string constant".toList
  | endOfInputInString => "EOF in string constant".toList
  | unmatchedCommentClose => "Unmatched *)".toList
  | endOfInputInComment => "EOF in comment".toList

def fixed : List LexicalError :=
  [stringTooLong, stringContainsNull, unterminatedString, endOfInputInString,
    unmatchedCommentClose, endOfInputInComment]

def ofMessage? (message : Text) : Option LexicalError :=
  match illegalCharacterLead.isPrefixOf? message with
  | some [c] => some (illegalCharacter c)
  | some _ => none
  | none => fixed.find? (·.message == message)

/-- Whether the error uses up the rest of the source. -/
def isTerminal : LexicalError → Bool
  | endOfInputInString | endOfInputInComment => true
  | _ => false

def code : LexicalError → DiagnosticCode
  | illegalCharacter _ => .error 1001
  | stringTooLong => .error 1002
  | stringContainsNull => .error 1003
  | unterminatedString => .error 1004
  | endOfInputInString => .error 1005
  | unmatchedCommentClose => .error 1006
  | endOfInputInComment => .error 1007

end LexicalError

end CoolLexer
