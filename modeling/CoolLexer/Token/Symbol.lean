import CoolLexer.Text

/-!
# Operators and punctuation

Every symbol has one spelling in a source and one name in a rendered token stream.
-/

namespace CoolLexer

inductive Symbol where
  | arrow
  | assign
  | atSign
  | colon
  | comma
  | divide
  | dot
  | equal
  | leftBrace
  | leftParen
  | lessThan
  | lessEqual
  | minus
  | multiply
  | plus
  | rightBrace
  | rightParen
  | semicolon
  | tilde
deriving Repr, DecidableEq

namespace Symbol

/-- The name of a symbol in a rendered token stream. -/
def name : Symbol → Text
  | arrow => "ARROW".toList
  | assign => "ASSIGN".toList
  | atSign => "AT".toList
  | colon => "COLON".toList
  | comma => "COMMA".toList
  | divide => "DIVIDE".toList
  | dot => "DOT".toList
  | equal => "EQUAL".toList
  | leftBrace => "LBRACE".toList
  | leftParen => "LPAREN".toList
  | lessThan => "LESS_THAN".toList
  | lessEqual => "LESS_THAN_EQ".toList
  | minus => "MINUS".toList
  | multiply => "MULTIPLY".toList
  | plus => "PLUS".toList
  | rightBrace => "RBRACE".toList
  | rightParen => "RPAREN".toList
  | semicolon => "SEMICOLON".toList
  | tilde => "TILDE".toList

def spelling : Symbol → Text
  | arrow => ['=', '>']
  | assign => ['<', '-']
  | atSign => ['@']
  | colon => [':']
  | comma => [',']
  | divide => ['/']
  | dot => ['.']
  | equal => ['=']
  | leftBrace => ['\x7b']
  | leftParen => ['(']
  | lessThan => ['<']
  | lessEqual => ['<', '=']
  | minus => ['-']
  | multiply => ['*']
  | plus => ['+']
  | rightBrace => ['\x7d']
  | rightParen => [')']
  | semicolon => [';']
  | tilde => ['~']

/-- The symbols that are one character long and begin no longer lexeme. -/
def ofChar? : Char → Option Symbol
  | '(' => some leftParen
  | ')' => some rightParen
  | '\x7b' => some leftBrace
  | '\x7d' => some rightBrace
  | ':' => some colon
  | ',' => some comma
  | ';' => some semicolon
  | '.' => some dot
  | '@' => some atSign
  | '~' => some tilde
  | '+' => some plus
  | '/' => some divide
  | '-' => some minus
  | _ => none

end Symbol

end CoolLexer
