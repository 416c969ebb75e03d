import CoolLexer.Proofs.Lexer.Call

/-!
# A scan gets to its end

Reading a token goes round once for each piece of trivia, and reading all tokens goes round once for
each token. Every round takes a character, so that the characters ahead bound them all. The end
token comes when no character is left, and nothing is read after it.
-/

namespace CoolLexer

/-- Adds a token to a stream. There is no such stream if the last token is an end token. -/
def TokenStream.push? (stream : TokenStream) (token : LocatedToken) : Option TokenStream :=
  if stream.located.back?.any (·.token.isEnd) then none else some (stream.push token)

namespace Lexer

/-- `toToken`, the loop of every call that reads a token, if it comes to an end in fewer than
`rounds` skips of trivia. -/
def toTokenWithin? (config : LexerConfig) (cursor : Cursor) :
    Nat → Option (Cursor × Option (Token × Nat))
  | 0 => none
  | rounds + 1 =>
      match Lexeme.first config cursor.rest with
      | .endOfText => some (cursor, none)
      | .token token n => some (cursor, some (token, n))
      | .trivia n => toTokenWithin? config (cursor.skip n) rounds

/-- `tokenizeAfter`, if it comes to an end in `calls` calls of `nextLocated` and adds no token after
an end token. -/
def tokenizeWithin? (read : TokenStream) (lexer : Lexer) : Nat → Option (TokenStream × Lexer)
  | 0 => none
  | calls + 1 =>
      let next := lexer.nextLocated
      match read.push? next.1 with
      | none => none
      | some read =>
          if next.1.token = .endOfInput then some (read, next.2)
          else tokenizeWithin? read next.2 calls

/-- The lexer gets to the end of its source, whether token by token or with one call. -/
structure ComesToEnd (lexer : Lexer) : Prop where
  returns : toTokenWithin? lexer.config lexer.cursor (lexer.cursor.rest.length + 1) =
    some (toToken lexer.config lexer.cursor)
  moves : lexer.nextToken.1 ≠ .endOfInput → ∃ passed, passed ≠ [] ∧
    lexer.cursor.rest = passed ++ lexer.nextToken.2.cursor.rest ∧
    lexer.nextToken.2.position = lexer.position.advanceBy passed
  stops : lexer.nextToken.1 = .endOfInput → lexer.nextToken.2.cursor.rest = []
  reads : tokenizeWithin? {} lexer (lexer.cursor.rest.length + 1) = some (tokenizeAfter {} lexer)
  size : lexer.tokenize.1.size ≤ lexer.cursor.rest.length + 1
  endsOnce : ∃ tokens last, lexer.tokenize.1.toList = tokens ++ [last] ∧
    last.token = .endOfInput ∧ ∀ located ∈ tokens, located.token ≠ .endOfInput

private theorem toTokenWithin?_eq (config : LexerConfig) (cursor : Cursor) {rounds : Nat}
    (h : cursor.rest.length < rounds) :
    toTokenWithin? config cursor rounds = some (toToken config cursor) := by
  obtain ⟨rounds, rfl⟩ := Nat.exists_eq_succ_of_ne_zero (Nat.ne_zero_of_lt h)
  fun_induction toToken config cursor generalizing rounds with
  | case1 cursor hfirst => rw [toTokenWithin?, hfirst]
  | case2 cursor token n hfirst => rw [toTokenWithin?, hfirst]
  | case3 cursor n hfirst ih =>
      have hn := Lexeme.first_eq_trivia hfirst
      have hless : (cursor.skip n).rest.length < rounds := by
        rw [Cursor.rest_skip, List.length_drop]
        omega
      obtain ⟨rounds, rfl⟩ := Nat.exists_eq_succ_of_ne_zero (Nat.ne_zero_of_lt hless)
      rw [toTokenWithin?, hfirst]
      exact ih rounds hless

/-- A token other than the end token takes the text up to where the next call goes on. -/
private theorem nextToken_moves (lexer : Lexer) (h : lexer.HaltsAtEnd)
    (htok : lexer.nextToken.1 ≠ .endOfInput) :
    ∃ passed, passed ≠ [] ∧ lexer.cursor.rest = passed ++ lexer.nextToken.2.cursor.rest ∧
      lexer.nextToken.2.position = lexer.position.advanceBy passed := by
  obtain ⟨m, n, -, hcursor⟩ := nextLocated_eq_skip lexer h
  have hafter : lexer.nextToken.2.cursor = lexer.cursor.skip (m + n) :=
    hcursor.trans (lexer.cursor.skip_skip m n)
  have hsplit : lexer.cursor.rest =
      lexer.cursor.rest.take (m + n) ++ lexer.nextToken.2.cursor.rest := by
    rw [hafter, Cursor.rest_skip, List.take_append_drop]
  have hless := rest_nextToken_lt lexer htok
  refine ⟨lexer.cursor.rest.take (m + n), ?_, hsplit, congrArg Cursor.position hafter⟩
  intro hnil
  rw [hnil, List.nil_append] at hsplit
  exact absurd hless (hsplit ▸ Nat.lt_irrefl _)

private theorem nextToken_stops (lexer : Lexer) (h : lexer.HaltsAtEnd)
    (htok : lexer.nextToken.1 = .endOfInput) : lexer.nextToken.2.cursor.rest = [] := by
  change lexer.nextLocated.1.token = .endOfInput at htok
  change lexer.nextLocated.2.cursor.rest = []
  rcases nextLocated_cases lexer h with ⟨hfirst, hnext⟩ | ⟨tok, n, hfirst, hnext⟩
  · rw [hnext]
    exact Lexeme.first_eq_endOfText hfirst
  · rw [hnext] at htok
    exact absurd htok (Lexeme.first_eq_token hfirst).2.2

/-- After a stream that does not end with the end token, no call fails and no token is refused. -/
private theorem tokenizeWithin?_eq (read : TokenStream) (lexer : Lexer) {calls : Nat}
    (hread : ¬ read.located.back?.any (·.token.isEnd) = true)
    (h : lexer.cursor.rest.length < calls) :
    tokenizeWithin? read lexer calls = some (tokenizeAfter read lexer) := by
  induction calls generalizing read lexer with
  | zero => exact absurd h (Nat.not_lt_zero _)
  | succ calls ih =>
      have hpush : read.push? lexer.nextLocated.1 = some (read.push lexer.nextLocated.1) :=
        if_neg hread
      rw [tokenizeWithin?, tokenizeAfter]
      simp only [hpush]
      by_cases hend : lexer.nextLocated.1.token = .endOfInput
      · rw [if_pos hend, if_pos hend]
      · rw [if_neg hend, if_neg hend]
        have hless : lexer.nextLocated.2.cursor.rest.length < lexer.cursor.rest.length :=
          rest_nextToken_lt lexer hend
        apply ih
        · rw [TokenStream.push, Array.back?_push, Option.any_some, Token.isEnd_iff]
          exact hend
        · omega

/-- The end token comes once and last, after no more tokens than there are characters ahead. -/
private theorem tokenizeAfter_endsOnce (read : TokenStream) (lexer : Lexer) :
    ∃ tokens last, (tokenizeAfter read lexer).1.toList = read.toList ++ (tokens ++ [last]) ∧
      last.token = .endOfInput ∧ (∀ located ∈ tokens, located.token ≠ .endOfInput) ∧
      tokens.length ≤ lexer.cursor.rest.length := by
  induction read, lexer using tokenizeAfter.induct with
  | case1 read lexer next hend =>
      refine ⟨[], next.1, ?_, hend, List.forall_mem_nil _, Nat.zero_le _⟩
      rw [tokenizeAfter, if_pos hend, TokenStream.toList_push]
      rfl
  | case2 read lexer next hend ih =>
      obtain ⟨tokens, last, htokens, hlast, hbefore, hlength⟩ := ih
      have hless : next.2.cursor.rest.length < lexer.cursor.rest.length :=
        rest_nextToken_lt lexer hend
      refine ⟨next.1 :: tokens, last, ?_, hlast, List.forall_mem_cons.mpr ⟨hend, hbefore⟩, ?_⟩
      · rw [tokenizeAfter, if_neg hend, htokens, TokenStream.toList_push, List.append_assoc]
        rfl
      · rw [List.length_cons]
        omega

private theorem comesToEnd {lexer : Lexer} (h : lexer.HaltsAtEnd) : lexer.ComesToEnd := by
  obtain ⟨tokens, last, htokens, hlast, hbefore, hlength⟩ := tokenizeAfter_endsOnce {} lexer
  rw [TokenStream.toList_empty, List.nil_append] at htokens
  exact {
    returns := toTokenWithin?_eq lexer.config lexer.cursor (Nat.lt_succ_self _)
    moves := nextToken_moves lexer h
    stops := nextToken_stops lexer h
    reads := tokenizeWithin?_eq {} lexer Bool.false_ne_true (Nat.lt_succ_self _)
    size := by
      have hsize := congrArg List.length htokens
      rw [List.length_append, List.length_singleton] at hsize
      change (tokenizeAfter {} lexer).1.toList.length ≤ _
      omega
    endsOnce := ⟨tokens, last, htokens, hlast, hbefore⟩ }

/-- However a lexer has been called, it gets to the end of its source. -/
theorem each_call_comesToEnd (source : Text) (config : LexerConfig) (file : FileId)
    (log : DiagnosticLog) (calls : List Call) :
    ((start source config file log).each call calls).2.ComesToEnd :=
  comesToEnd (haltsAtEnd_each_call source config file log calls)

end Lexer

end CoolLexer
