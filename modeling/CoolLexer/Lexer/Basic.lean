import CoolLexer.Cursor
import CoolLexer.Lexer.Lexeme
import CoolLexer.Token.Stream

/-!
# The lexer

A lexer reads a source token by token and reports the lexical errors that it meets. Every way of
reading on goes through `nextToken`; the readers of single lexemes start wherever the cursor stands.
-/

namespace CoolLexer

/-- A scan in progress. -/
structure Lexer where
  cursor : Cursor
  config : LexerConfig
  file : FileId
  /-- Where the last token read in order starts. -/
  tokenStart : Position
  /-- Whether an error has used up the rest of the source. -/
  halted : Bool
  /-- Whether `next?` has returned the end token. -/
  finished : Bool
  /-- The errors reported so far, after those of earlier scans. -/
  log : DiagnosticLog
deriving Repr, DecidableEq

namespace Lexer

def start (source : Text) (config : LexerConfig := {}) (file : FileId := 0)
    (log : DiagnosticLog := {}) : Lexer where
  cursor := Cursor.start source
  config
  file
  tokenStart := Position.start
  halted := false
  finished := false
  log

def position (lexer : Lexer) : Position := lexer.cursor.position

/-- The span from the start of the last token to the place reached. -/
def tokenSpan (lexer : Lexer) : Span :=
  Span.between lexer.file lexer.tokenStart lexer.position

/-- Moves over trivia; the token after it, with its length, unless the text ends there. -/
def toToken (config : LexerConfig) (cursor : Cursor) : Cursor × Option (Token × Nat) :=
  match _ : Lexeme.first config cursor.rest with
  | .endOfText => (cursor, none)
  | .token token n => (cursor, some (token, n))
  | .trivia n => toToken config (cursor.skip n)
termination_by cursor.rest.length
decreasing_by
  have := Lexeme.first_eq_trivia ‹_›
  simp only [Cursor.rest_skip, List.length_drop]
  omega

def skip (lexer : Lexer) (n : Nat) : Lexer := { lexer with cursor := lexer.cursor.skip n }

/-- Reports an error at the span of the last token. -/
def report (lexer : Lexer) (error : LexicalError) : Lexer :=
  { lexer with
    log := lexer.log.report ⟨error.message, lexer.tokenSpan, some error.code⟩
    halted := lexer.halted || error.isTerminal }

/-- Reports the error that an illegal token stands for. -/
def reportToken (lexer : Lexer) (token : Token) : Lexer :=
  match token.error? with
  | some error => lexer.report error
  | none => lexer

/-- Reads the next token; at the end of input, the end token for ever. -/
def nextToken (lexer : Lexer) : Token × Lexer :=
  let (cursor, found) := toToken lexer.config lexer.cursor
  let lexer := { lexer with cursor, tokenStart := cursor.position }
  match lexer.halted, found with
  | false, some (token, n) => (token, (lexer.skip n).reportToken token)
  | _, _ => (.endOfInput, lexer)

def nextLocated (lexer : Lexer) : LocatedToken × Lexer :=
  let (token, lexer) := lexer.nextToken
  (⟨token, lexer.tokenSpan⟩, lexer)

/-- Reads the next token, up to and including the first end token. -/
def next? (lexer : Lexer) : Option LocatedToken × Lexer :=
  if lexer.finished then (none, lexer)
  else
    let (located, lexer) := lexer.nextLocated
    (some located, { lexer with finished := located.token.isEnd })

/-- Reads up to `n` tokens after those `read` already. -/
def takeAfter (read : Array LocatedToken) (lexer : Lexer) : Nat → Array LocatedToken × Lexer
  | 0 => (read, lexer)
  | n + 1 =>
      match lexer.next? with
      | (some located, lexer) => takeAfter (read.push located) lexer n
      | (none, lexer) => (read, lexer)

/-- Reads up to `n` tokens, up to and including the first end token. -/
def take (lexer : Lexer) (n : Nat) : List LocatedToken × Lexer :=
  let (read, lexer) := takeAfter #[] lexer n
  (read.toList, lexer)

private theorem rest_toToken_le (config : LexerConfig) (cursor : Cursor) :
    (toToken config cursor).1.rest.length ≤ cursor.rest.length := by
  fun_induction toToken config cursor with
  | case1 => exact Nat.le_refl _
  | case2 => exact Nat.le_refl _
  | case3 cursor n _ ih =>
      simp only [Cursor.rest_skip, List.length_drop] at ih
      omega

private theorem toToken_eq_some (config : LexerConfig) (cursor : Cursor) {token : Token} {n : Nat}
    (h : (toToken config cursor).2 = some (token, n)) :
    0 < n ∧ n ≤ (toToken config cursor).1.rest.length ∧ token ≠ .endOfInput := by
  fun_induction toToken config cursor with
  | case1 => simp at h
  | case2 cursor token' n' first =>
      obtain ⟨rfl, rfl⟩ := Prod.mk.inj (Option.some.inj h)
      exact Lexeme.first_eq_token first
  | case3 cursor n _ ih => exact ih h

theorem cursor_reportToken (lexer : Lexer) (token : Token) :
    (lexer.reportToken token).cursor = lexer.cursor := by
  unfold reportToken
  split <;> rfl

/-- Every token but the end token takes at least one character. -/
theorem rest_nextToken_lt (lexer : Lexer) (h : lexer.nextToken.1 ≠ .endOfInput) :
    lexer.nextToken.2.cursor.rest.length < lexer.cursor.rest.length := by
  have le := rest_toToken_le lexer.config lexer.cursor
  have some := @toToken_eq_some lexer.config lexer.cursor
  revert h
  simp only [nextToken]
  split
  · next found =>
      intro _
      have := some found
      simp only [cursor_reportToken, skip, Cursor.rest_skip, List.length_drop]
      omega
  · intro h
    exact absurd rfl h

/-- Reads all tokens after those `read` already. -/
def tokenizeAfter (read : TokenStream) (lexer : Lexer) : TokenStream × Lexer :=
  let next := lexer.nextLocated
  if next.1.token = .endOfInput then (read.push next.1, next.2)
  else tokenizeAfter (read.push next.1) next.2
termination_by lexer.cursor.rest.length
decreasing_by exact rest_nextToken_lt lexer ‹_›

/-- Reads the rest of the source. The stream ends with its only end token. -/
def tokenize (lexer : Lexer) : TokenStream × Lexer :=
  let (stream, lexer) := tokenizeAfter {} lexer
  (stream, { lexer with finished := true })

end Lexer

end CoolLexer
