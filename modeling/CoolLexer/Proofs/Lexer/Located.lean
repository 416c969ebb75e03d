import CoolLexer.Lexer.Scan
import CoolLexer.Proofs.Lexer.Spelling
import CoolLexer.Proofs.Text.Slice

/-!
# The tokens of a source as a function of its text

The lexer carries a cursor, the start of the last token and a flag. What it has yet to return is
told by the text ahead and the place where it stands alone: a set flag stands at the end only.
-/

namespace CoolLexer.Lexer

/-- The tokens of a text with their spans, where the text starts at `p`. -/
def locate (config : LexerConfig) (file : FileId) (p : Position) (t : Text) : List LocatedToken :=
  match _ : Lexeme.first config t with
  | .endOfText => [⟨.endOfInput, Span.between file p p⟩]
  | .trivia n => locate config file (p.advanceBy (t.take n)) (t.drop n)
  | .token token n =>
      ⟨token, Span.between file p (p.advanceBy (t.take n))⟩ ::
        locate config file (p.advanceBy (t.take n)) (t.drop n)
termination_by t.length
decreasing_by
  · have := Lexeme.first_eq_trivia ‹_›
    simp only [List.length_drop]
    omega
  · have := Lexeme.first_eq_token ‹_›
    simp only [List.length_drop]
    omega

section
variable {config : LexerConfig} (file : FileId) (p : Position) {t : Text} {n : Nat}

theorem locate_endOfText (h : Lexeme.first config t = .endOfText) :
    locate config file p t = [⟨.endOfInput, Span.between file p p⟩] := by
  rw [locate]
  split <;> simp_all

theorem locate_trivia (h : Lexeme.first config t = .trivia n) :
    locate config file p t = locate config file (p.advanceBy (t.take n)) (t.drop n) := by
  rw [locate]
  split <;> simp_all

theorem locate_token {tok : Token} (h : Lexeme.first config t = .token tok n) :
    locate config file p t =
      ⟨tok, Span.between file p (p.advanceBy (t.take n))⟩ ::
        locate config file (p.advanceBy (t.take n)) (t.drop n) := by
  rw [locate]
  split <;> simp_all

end

/-- The end token comes last. -/
theorem exists_locate_eq_concat (config : LexerConfig) (file : FileId) (p : Position)
    (t : Text) : ∃ tokens span, locate config file p t = tokens ++ [⟨.endOfInput, span⟩] := by
  induction p, t using locate.induct config with
  | case1 p t hfirst => exact ⟨[], _, locate_endOfText file p hfirst⟩
  | case2 p t n hfirst ih => exact locate_trivia file p hfirst ▸ ih
  | case3 p t tok n hfirst ih =>
      obtain ⟨tokens, span, htokens⟩ := ih
      rw [locate_token file p hfirst, htokens, ← List.cons_append]
      exact ⟨_, span, rfl⟩

/-- The token is the lexeme that a text starting at `p` goes on with at the place of its span. -/
def HasPlace (config : LexerConfig) (file : FileId) (p : Position) (t : Text)
    (located : LocatedToken) : Prop :=
  ∃ before rest n, t = before ++ rest ∧ Lexeme.first config rest = .token located.token n ∧
    located.span = Span.between file (p.advanceBy before) (p.advanceBy (before ++ rest.take n))

private theorem HasPlace.prepend {config : LexerConfig} {file : FileId} {p : Position} {s t : Text}
    {located : LocatedToken} (h : HasPlace config file (p.advanceBy s) t located) :
    HasPlace config file p (s ++ t) located := by
  obtain ⟨before, rest, n, rfl, htoken, hspan⟩ := h
  refine ⟨s ++ before, rest, n, (List.append_assoc ..).symm, htoken, ?_⟩
  rw [hspan, ← Position.advanceBy_append, ← Position.advanceBy_append, List.append_assoc]

theorem hasPlace_of_mem_locate {config : LexerConfig} {file : FileId} {p : Position} {t : Text}
    {located : LocatedToken} (h : located ∈ locate config file p t)
    (hend : located.token ≠ .endOfInput) : HasPlace config file p t located := by
  induction p, t using locate.induct config with
  | case1 p t hfirst =>
      rw [locate_endOfText file p hfirst] at h
      obtain rfl := List.mem_singleton.mp h
      exact absurd rfl hend
  | case2 p t n hfirst ih =>
      rw [locate_trivia file p hfirst] at h
      have hplace := (ih h).prepend
      rwa [List.take_append_drop] at hplace
  | case3 p t tok n hfirst ih =>
      rw [locate_token file p hfirst] at h
      rcases List.mem_cons.mp h with rfl | h
      · exact ⟨[], t, n, rfl, hfirst, rfl⟩
      · have hplace := (ih h).prepend
        rwa [List.take_append_drop] at hplace

private theorem locate_blanks (config : LexerConfig) (file : FileId) (p : Position) (t : Text) :
    locate config file p t =
      locate config file (p.advanceBy (t.takeWhile Lexeme.isBlank))
        (t.dropWhile Lexeme.isBlank) := by
  cases t with
  | nil => rfl
  | cons c rest =>
      by_cases hblank : Lexeme.isBlank c = true
      · have hlength : (rest.takeWhile Lexeme.isBlank).length + 1 =
            ((c :: rest).takeWhile Lexeme.isBlank).length := by
          rw [List.takeWhile_cons_of_pos hblank, List.length_cons]
        rw [locate_trivia file p (Lexeme.first_blank config hblank rest), hlength,
          Text.take_length_takeWhile, Text.drop_length_takeWhile]
      · rw [List.takeWhile_cons_of_neg hblank, List.dropWhile_cons_of_neg hblank]
        rfl

/-- A blank is skipped alone as well as together with the blanks after it. -/
theorem locate_blank {config : LexerConfig} (file : FileId) (p : Position) {c : Char}
    (h : Lexeme.isBlank c = true) (t : Text) :
    locate config file p (c :: t) = locate config file (p.advance c) t := by
  rw [locate_blanks config file p, List.takeWhile_cons_of_pos h, List.dropWhile_cons_of_pos h]
  exact (locate_blanks config file (p.advance c) t).symm

/-- The tokens that a lexer has yet to return. -/
def upcoming (lexer : Lexer) : List LocatedToken :=
  locate lexer.config lexer.file lexer.position lexer.cursor.rest

/-- A halted lexer stands at the end of its source. -/
def HaltsAtEnd (lexer : Lexer) : Prop := lexer.halted = true → lexer.cursor.rest = []

/-- The lexer in front of its next token. -/
def toNextToken (lexer : Lexer) : Lexer :=
  { lexer with
    cursor := (toToken lexer.config lexer.cursor).1
    tokenStart := (toToken lexer.config lexer.cursor).1.position }

private theorem first_toToken (config : LexerConfig) (cursor : Cursor) :
    Lexeme.first config (toToken config cursor).1.rest =
      match (toToken config cursor).2 with
      | none => .endOfText
      | some (token, n) => .token token n := by
  fun_induction toToken config cursor with
  | case1 _ h => exact h
  | case2 _ _ _ h => exact h
  | case3 _ _ _ ih => exact ih

private theorem locate_toToken (config : LexerConfig) (file : FileId) (cursor : Cursor) :
    locate config file (toToken config cursor).1.position (toToken config cursor).1.rest =
      locate config file cursor.position cursor.rest := by
  fun_induction toToken config cursor with
  | case1 => rfl
  | case2 => rfl
  | case3 cursor n hn ih =>
      rw [ih, locate_trivia file cursor.position hn]
      rfl

private theorem rest_toNextToken (lexer : Lexer) (h : lexer.cursor.rest = []) :
    lexer.toNextToken.cursor.rest = [] := by
  unfold toNextToken
  rw [toToken]
  split
  · exact h
  · exact h
  · next hn => simp [h, Lexeme.first] at hn

theorem reportToken_keeps (lexer : Lexer) (tok : Token) :
    (lexer.reportToken tok).config = lexer.config ∧ (lexer.reportToken tok).file = lexer.file ∧
      (lexer.reportToken tok).tokenStart = lexer.tokenStart ∧
      (lexer.reportToken tok).finished = lexer.finished := by
  unfold reportToken
  split <;> exact ⟨rfl, rfl, rfl, rfl⟩

private theorem halted_reportToken {lexer : Lexer} {tok : Token}
    (h : (lexer.reportToken tok).halted = true) :
    lexer.halted = true ∨ ∃ error, tok = .illegal error ∧ error.isTerminal = true := by
  cases tok with
  | illegal error =>
      rcases Bool.or_eq_true_iff.mp h with h | h
      · exact .inl h
      · exact .inr ⟨error, rfl, h⟩
  | _ => exact .inl h

private theorem span_reportToken (lexer : Lexer) (tok : Token) :
    (lexer.reportToken tok).tokenSpan = lexer.tokenSpan := by
  obtain ⟨-, hfile, hstart, -⟩ := reportToken_keeps lexer tok
  rw [tokenSpan, position, hfile, hstart, cursor_reportToken]
  rfl

private theorem upcoming_reportToken (lexer : Lexer) (tok : Token) :
    (lexer.reportToken tok).upcoming = lexer.upcoming := by
  obtain ⟨hconfig, hfile, -⟩ := reportToken_keeps lexer tok
  rw [upcoming, position, hconfig, hfile, cursor_reportToken]
  rfl

/-- What one call does: at the end of the source it returns the end token, and elsewhere the token
that the text ahead starts with. -/
theorem nextLocated_cases (lexer : Lexer) (h : lexer.HaltsAtEnd) :
    (Lexeme.first lexer.config lexer.toNextToken.cursor.rest = .endOfText ∧
      lexer.nextLocated = (⟨.endOfInput, lexer.toNextToken.tokenSpan⟩, lexer.toNextToken)) ∨
    ∃ tok n, Lexeme.first lexer.config lexer.toNextToken.cursor.rest = .token tok n ∧
      lexer.nextLocated = (⟨tok, (lexer.toNextToken.skip n).tokenSpan⟩,
        (lexer.toNextToken.skip n).reportToken tok) := by
  have hfound := first_toToken lexer.config lexer.cursor
  change Lexeme.first lexer.config lexer.toNextToken.cursor.rest = _ at hfound
  rw [nextLocated]
  cases hhalted : lexer.halted with
  | true =>
      have hnext : lexer.nextToken = (.endOfInput, lexer.toNextToken) := by
        simp only [nextToken, hhalted, toNextToken]
      refine .inl ⟨?_, by rw [hnext]⟩
      rw [rest_toNextToken lexer (h hhalted)]
      rfl
  | false =>
      cases hpair : (toToken lexer.config lexer.cursor).2 with
      | none =>
          have hnext : lexer.nextToken = (.endOfInput, lexer.toNextToken) := by
            simp only [nextToken, hhalted, hpair, toNextToken]
          exact .inl ⟨by rw [hfound, hpair], by rw [hnext]⟩
      | some found =>
          have hnext : lexer.nextToken =
              (found.1, (lexer.toNextToken.skip found.2).reportToken found.1) := by
            simp only [nextToken, hhalted, hpair, toNextToken]
          refine .inr ⟨found.1, found.2, by rw [hfound, hpair], ?_⟩
          rw [hnext, ← span_reportToken _ found.1]

/-- A terminal error has taken all the text. -/
theorem drop_eq_nil_of_isTerminal {config : LexerConfig} {t : Text} {error : LexicalError} {n : Nat}
    (h : Lexeme.first config t = .token (.illegal error) n) (hterm : error.isTerminal = true) :
    t.drop n = [] := by
  have htakes := Lexeme.first_takes config t
  rw [h] at htakes
  obtain ⟨s, after, rfl, rfl, hspells⟩ := htakes
  rw [List.drop_left]
  cases error with
  | endOfInputInString =>
      obtain ⟨_, _, hopen⟩ := hspells
      exact hopen.1
  | endOfInputInComment => exact hspells.1
  | _ => cases hterm

theorem haltsAtEnd_start (source : Text) (config : LexerConfig) (file : FileId)
    (log : DiagnosticLog) : (start source config file log).HaltsAtEnd := by
  intro h
  cases h

theorem haltsAtEnd_nextLocated (lexer : Lexer) (h : lexer.HaltsAtEnd) :
    lexer.nextLocated.2.HaltsAtEnd := by
  rcases nextLocated_cases lexer h with ⟨hfirst, hnext⟩ | ⟨tok, n, hfirst, hnext⟩
  · rw [hnext]
    intro _
    exact Lexeme.first_eq_endOfText hfirst
  · rw [hnext]
    intro hhalted
    rw [cursor_reportToken]
    rcases halted_reportToken hhalted with hhalted | ⟨error, rfl, hterm⟩
    · change lexer.toNextToken.cursor.rest.drop n = []
      rw [rest_toNextToken lexer (h hhalted), List.drop_nil]
    · exact drop_eq_nil_of_isTerminal hfirst hterm

/-- Reading a token takes the first of the tokens ahead, and leaves the others. -/
theorem upcoming_eq (lexer : Lexer) (h : lexer.HaltsAtEnd) :
    lexer.upcoming = lexer.nextLocated.1 ::
      (if lexer.nextLocated.1.token = .endOfInput then [] else lexer.nextLocated.2.upcoming) := by
  have hahead : lexer.upcoming = locate lexer.config lexer.file lexer.toNextToken.position
      lexer.toNextToken.cursor.rest := (locate_toToken lexer.config lexer.file lexer.cursor).symm
  rw [hahead]
  rcases nextLocated_cases lexer h with ⟨hfirst, hnext⟩ | ⟨tok, n, hfirst, hnext⟩
  · rw [hnext, locate_endOfText _ _ hfirst]
    rfl
  · have hend := (Lexeme.first_eq_token hfirst).2.2
    rw [hnext, locate_token _ _ hfirst, if_neg hend, upcoming_reportToken]
    rfl

/-- Reading to the end returns the tokens ahead, in order. -/
theorem toList_tokenizeAfter (read : TokenStream) (lexer : Lexer) (h : lexer.HaltsAtEnd) :
    (tokenizeAfter read lexer).1.toList = read.toList ++ lexer.upcoming := by
  induction read, lexer using tokenizeAfter.induct with
  | case1 read lexer next hend =>
      rw [tokenizeAfter, if_pos hend, upcoming_eq lexer h, if_pos hend, TokenStream.toList_push]
  | case2 read lexer next hend ih =>
      rw [tokenizeAfter, if_neg hend, upcoming_eq lexer h, if_neg hend,
        ih (haltsAtEnd_nextLocated lexer h), TokenStream.toList_push, List.append_assoc]
      rfl

/-- The tokens of a source are those of its text. -/
theorem toList_tokenize (source : Text) (config : LexerConfig) (file : FileId)
    (log : DiagnosticLog) :
    (start source config file log).tokenize.1.toList =
      locate config file Position.start source :=
  toList_tokenizeAfter {} (start source config file log) (haltsAtEnd_start source config file log)

theorem toList_scan (source : Text) (config : LexerConfig) (file : FileId) :
    (scan source config file).1.toList = locate config file Position.start source :=
  toList_tokenize source config file {}

end CoolLexer.Lexer
