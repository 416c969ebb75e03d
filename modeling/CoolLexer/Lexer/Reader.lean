import CoolLexer.Lexer.Basic

/-!
# Reading single lexemes

These readers take what stands at the cursor for the lexeme that they are named after, whatever it
is. They skip no trivia, report nothing, and leave the start of the last token where it was.
-/

namespace CoolLexer.Lexer

/-- Moves over the token that follows one opening character, given how the text after it is read. -/
def readTail (lexer : Lexer) (tail : Text → Token × Nat) : Token × Lexer :=
  let lexer := lexer.skip 1
  let (token, n) := tail lexer.cursor.rest
  (token, lexer.skip n)

/-- Moves over the characters that satisfy `p` and makes a token of them. -/
def readRun (lexer : Lexer) (p : Char → Bool) (token : Text → Token) : Token × Lexer :=
  let (run, cursor) := lexer.cursor.eatWhile p
  (token run, { lexer with cursor })

/-- Reads a word, which may be empty. -/
def readWord (lexer : Lexer) : Token × Lexer := lexer.readRun Lexeme.isWordChar Token.ofWord

/-- Reads a run of digits, which may be empty. -/
def readDigits (lexer : Lexer) : Token × Lexer := lexer.readRun Char.isDigit Token.integer

/-- Reads a string literal; the first character is taken for its opening quote. -/
def readString (lexer : Lexer) : Token × Lexer :=
  lexer.readTail (StringLiteral.scan lexer.config.maxStringLength)

/-- Reads an operator that starts with `<`; the first character is taken for that. -/
def readLess (lexer : Lexer) : Token × Lexer := lexer.readTail Lexeme.afterLess

/-- Reads an operator that starts with `=`; the first character is taken for that. -/
def readEqual (lexer : Lexer) : Token × Lexer := lexer.readTail Lexeme.afterEqual

/-- Reads an operator that starts with `*`; the first character is taken for that. -/
def readStar (lexer : Lexer) : Token × Lexer := lexer.readTail Lexeme.afterStar

/-- Moves over a block comment; the first two characters are taken for its `(*`. -/
def skipBlockComment (lexer : Lexer) : Except LexicalError Unit × Lexer :=
  let lexer := lexer.skip 2
  match Comment.blockLength? lexer.cursor.rest with
  | some n => (.ok (), lexer.skip n)
  | none => (.error .endOfInputInComment, lexer.skip lexer.cursor.rest.length)

end CoolLexer.Lexer
