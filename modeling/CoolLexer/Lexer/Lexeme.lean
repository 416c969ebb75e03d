import CoolLexer.Lexer.Comment
import CoolLexer.Lexer.Config
import CoolLexer.Lexer.StringLiteral

/-!
# Lexemes

A text starts with a lexeme: a piece of trivia (blanks or a comment) or a token. Every lexeme is at
least one character long and no longer than the text, which is why a scan ends.
-/

namespace CoolLexer

/-- What a text starts with, and how many characters it takes. -/
inductive Lexeme where
  | endOfText
  | trivia (length : Nat)
  | token (token : Token) (length : Nat)
deriving Repr, DecidableEq

namespace Lexeme

/-- The characters that only separate tokens. -/
def isBlank (c : Char) : Bool :=
  c == ' ' || c == '\t' || c == '\n' || c == '\r' || c == '\x0b' || c == '\x0c'

/-- The characters that a word may go on with. -/
def isWordChar (c : Char) : Bool := c.isAlphanum || c == '_'

/-- The token that `<` starts, and how much of the text after it belongs to the token. -/
def afterLess : Text → Token × Nat
  | '=' :: _ => (.symbol .lessEqual, 1)
  | '-' :: _ => (.symbol .assign, 1)
  | _ => (.symbol .lessThan, 0)

/-- The token that `=` starts, and how much of the text after it belongs to the token. -/
def afterEqual : Text → Token × Nat
  | '>' :: _ => (.symbol .arrow, 1)
  | _ => (.symbol .equal, 0)

/-- The token that `*` starts, and how much of the text after it belongs to the token. -/
def afterStar : Text → Token × Nat
  | ')' :: _ => (.illegal .unmatchedCommentClose, 1)
  | _ => (.symbol .multiply, 0)

/-- A token made of one character and part of the text after it. -/
def ofTail (tail : Token × Nat) : Lexeme := .token tail.1 (tail.2 + 1)

/-- The lexeme that starts with `(*`: a comment, or all the rest if the comment is not closed. -/
def ofBlockComment (body : Text) : Lexeme :=
  match Comment.blockLength? body with
  | some n => .trivia (n + 2)
  | none => .token (.illegal .endOfInputInComment) (body.length + 2)

/-- The lexeme that starts with `c`, where `c` starts neither a comment nor a string nor an operator
of two characters. -/
def ofPlain (c : Char) (rest : Text) : Lexeme :=
  if isBlank c then .trivia ((rest.takeWhile isBlank).length + 1)
  else
    match Symbol.ofChar? c with
    | some s => .token (.symbol s) 1
    | none =>
        if c.isAlpha then
          let tail := rest.takeWhile isWordChar
          .token (Token.ofWord (c :: tail)) (tail.length + 1)
        else if c.isDigit then
          let tail := rest.takeWhile Char.isDigit
          .token (.integer (c :: tail)) (tail.length + 1)
        else .token (.illegal (.illegalCharacter c)) 1

/-- The lexeme that a text starts with. -/
def first (config : LexerConfig) : Text → Lexeme
  | [] => .endOfText
  | '(' :: '*' :: body => ofBlockComment body
  | '-' :: '-' :: body =>
      if config.lineComments then .trivia (Comment.lineLength body + 2)
      else .token (.symbol .minus) 1
  | '"' :: body => ofTail (StringLiteral.scan config.maxStringLength body)
  | '<' :: rest => ofTail (afterLess rest)
  | '=' :: rest => ofTail (afterEqual rest)
  | '*' :: rest => ofTail (afterStar rest)
  | c :: rest => ofPlain c rest

/-- A lexeme of a text of `size` characters has a character, stays inside, and is not the end
token. -/
def Fits (size : Nat) : Lexeme → Prop
  | endOfText => size = 0
  | trivia n => 0 < n ∧ n ≤ size
  | token t n => 0 < n ∧ n ≤ size ∧ t ≠ .endOfInput

private theorem ofWord_ne_end (word : Text) : Token.ofWord word ≠ .endOfInput := by
  have reserved : Token.ofReserved? word ≠ some .endOfInput := by
    simp only [Token.ofReserved?]
    split
    · simp
    · split <;> simp
  simp only [Token.ofWord]
  split
  · next h => exact fun h' => reserved (h' ▸ h)
  · split <;> simp

private theorem length_takeWhile_le (p : Char → Bool) (t : Text) :
    (t.takeWhile p).length ≤ t.length :=
  (List.takeWhile_prefix p).length_le

private theorem ofPlain_fits (c : Char) (rest : Text) :
    (ofPlain c rest).Fits (rest.length + 1) := by
  have blanks := length_takeWhile_le isBlank rest
  have word := length_takeWhile_le isWordChar rest
  have digits := length_takeWhile_le Char.isDigit rest
  simp only [ofPlain]
  split
  · simpa [Fits] using blanks
  · split
    · simp [Fits]
    · split
      · simpa [Fits, ofWord_ne_end] using word
      · split
        · simpa [Fits] using digits
        · simp [Fits]

/-- The first lexeme of a text fits into it. -/
theorem first_fits (config : LexerConfig) (t : Text) : (first config t).Fits t.length := by
  fun_cases first config t with
  | case1 => rfl
  | case2 body =>
      simp only [ofBlockComment]
      split
      · next h => simpa [Fits] using Comment.blockLength?_le h
      · simp [Fits]
  | case3 body h => simpa [Fits] using Comment.lineLength_le body
  | case4 => simp [Fits]
  | case5 body =>
      simpa [Fits, ofTail, StringLiteral.scan_ne_end] using
        StringLiteral.scan_le config.maxStringLength body
  | case6 rest => simp only [ofTail, afterLess]; split <;> simp [Fits]
  | case7 rest => simp only [ofTail, afterEqual]; split <;> simp [Fits]
  | case8 rest => simp only [ofTail, afterStar]; split <;> simp [Fits]
  | case9 c rest => exact ofPlain_fits c rest

theorem first_eq_trivia {config : LexerConfig} {t : Text} {n : Nat}
    (h : first config t = .trivia n) : 0 < n ∧ n ≤ t.length := by
  have := first_fits config t
  rwa [h] at this

theorem first_eq_token {config : LexerConfig} {t : Text} {token : Token} {n : Nat}
    (h : first config t = .token token n) : 0 < n ∧ n ≤ t.length ∧ token ≠ .endOfInput := by
  have := first_fits config t
  rwa [h] at this

theorem first_eq_endOfText {config : LexerConfig} {t : Text}
    (h : first config t = .endOfText) : t = [] := by
  have := first_fits config t
  rw [h] at this
  exact List.length_eq_zero_iff.mp this

end Lexeme

end CoolLexer
