import CoolLexer.Token.Basic

/-!
# String literals

A string literal gives exactly one token. Once its value has gone wrong, by a NUL or by its length,
the literal is still read up to the closing quote, so that none of it is taken for tokens; newlines
do not end it then. Otherwise a newline that is not escaped ends it and is part of it.
-/

namespace CoolLexer.StringLiteral

/-- The characters of the value read so far, or the first thing that went wrong. -/
abbrev Progress := Except LexicalError (Array Char)

/-- The character that a backslash followed by `c` stands for. -/
def unescape : Char → Char
  | 'n' => '\n'
  | 't' => '\t'
  | 'b' => '\x08'
  | 'f' => '\x0c'
  | c => c

/-- Adds a character to the value, of at most `limit` characters. -/
def absorb (limit : Nat) : Progress → Char → Progress
  | .ok value, c =>
      if c = '\x00' then .error .stringContainsNull
      else if limit ≤ value.size then .error .stringTooLong
      else .ok (value.push c)
  | .error e, _ => .error e

/-- The token of a literal that has been closed. -/
def closed : Progress → Token
  | .ok value => .string value.toList
  | .error e => .illegal e

/-- The token of a literal that is still open at the end of input. -/
def unclosed : Progress → Token
  | .ok _ => .illegal .endOfInputInString
  | .error e => .illegal e

/-- Reads on in a literal: the token, and the number of characters read including `used`. -/
def scanFrom (limit : Nat) (progress : Progress) (used : Nat) : Text → Token × Nat
  | [] => (unclosed progress, used)
  | c :: rest =>
      if c = '"' then (closed progress, used + 1)
      else if c = '\\' then
        match rest with
        | [] => (unclosed progress, used + 1)
        | e :: rest => scanFrom limit (absorb limit progress (unescape e)) (used + 2) rest
      else if c = '\n' && progress.isOk then (.illegal .unterminatedString, used + 1)
      else scanFrom limit (absorb limit progress c) (used + 1) rest

/-- Reads the rest of a literal, after its opening quote: the token, and the number of
characters. -/
def scan (limit : Nat) (body : Text) : Token × Nat := scanFrom limit (.ok #[]) 0 body

private theorem scanFrom_le (limit : Nat) (progress : Progress) (used : Nat) (t : Text) :
    (scanFrom limit progress used t).2 ≤ used + t.length := by
  fun_induction scanFrom limit progress used t <;> simp_all <;> omega

theorem scan_le (limit : Nat) (t : Text) : (scan limit t).2 ≤ t.length := by
  simpa [scan] using scanFrom_le limit (.ok #[]) 0 t

private theorem scanFrom_ne_end (limit : Nat) (progress : Progress) (used : Nat) (t : Text) :
    (scanFrom limit progress used t).1 ≠ .endOfInput := by
  fun_induction scanFrom limit progress used t <;> simp_all [closed, unclosed] <;> split <;> simp

theorem scan_ne_end (limit : Nat) (t : Text) : (scan limit t).1 ≠ .endOfInput :=
  scanFrom_ne_end limit (.ok #[]) 0 t

end CoolLexer.StringLiteral
