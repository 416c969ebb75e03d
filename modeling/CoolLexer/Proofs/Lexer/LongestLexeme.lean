import CoolLexer.Proofs.Lexer.Located
import CoolLexer.Proofs.Lexer.Lookahead
import CoolLexer.Proofs.Lexer.TokenSource

/-!
# The longest lexeme

Words, numbers, symbols and a stray `*)` are plain lexemes. Where neither a string nor a comment
begins, the next token is read from the longest plain lexeme that the text starts with. A character
that starts none is illegal.
-/

namespace CoolLexer

namespace Lexeme

/-- The text of a token that is neither a string nor an illegal character. -/
inductive IsPlain : Text → Prop
  | word {s : Text} : IsWord Char.isAlpha s → IsPlain s
  | digits {s : Text} : s ≠ [] → (∀ c ∈ s, c.isDigit = true) → IsPlain s
  | symbol (s : Symbol) : IsPlain s.spelling
  | commentClose : IsPlain ['*', ')']

/-- No plain lexeme that `t` starts with is longer than `s`, which is one of them. -/
structure IsLongest (t s : Text) : Prop where
  plain : IsPlain s
  starts : s <+: t
  longest : ∀ s', IsPlain s' → s' <+: t → s'.length ≤ s.length

end Lexeme

open Lexeme

/-- The token that a plain lexeme stands for. -/
inductive Token.Denoted : Text → Token → Prop
  | keyword (k : Keyword) : Denoted k.spelling (.keyword k)
  | boolean (value : Bool) : Denoted (booleanText value) (.boolean value)
  /-- No reserved word starts with a capital. -/
  | className {name : Text} : IsWord Char.isUpper name → Denoted name (.className name)
  | identifier {name : Text} : IsWord Char.isLower name → NotReserved name →
      Denoted name (.identifier name)
  | integer {digits : Text} : digits ≠ [] → (∀ c ∈ digits, c.isDigit = true) →
      Denoted digits (.integer digits)
  | symbol (s : Symbol) : Denoted s.spelling (.symbol s)
  | commentClose : Denoted ['*', ')'] (.illegal .unmatchedCommentClose)

namespace Lexeme

variable {config : LexerConfig} {s after : Text}

private theorem size_pos {t : Text} (h : t ≠ []) : 0 < (first config t).size := by
  cases hfirst : first config t with
  | endOfText => exact absurd (first_eq_endOfText hfirst) h
  | trivia n => exact (first_eq_trivia hfirst).1
  | token tok n => exact (first_eq_token hfirst).1

/-- What a text starts with is as long as every plain lexeme that it starts with. -/
private theorem length_le_size (config : LexerConfig) (h : IsPlain s) (after : Text) :
    s.length ≤ (first config (s ++ after)).size := by
  have hone {c : Char} : [c].length ≤ (first config ([c] ++ after)).size := size_pos (by simp)
  cases h with
  | word hword =>
      obtain ⟨c, tail, rfl, hc, htail⟩ := hword
      have hall : ∀ d ∈ tail, isWordChar d = true := fun d hd => isWordChar_iff.mpr (htail d hd)
      rw [List.cons_append, first_letter hc, List.takeWhile_append_of_pos hall]
      simp [size]
  | digits hne hdigits =>
      obtain ⟨c, tail, rfl⟩ := List.exists_cons_of_ne_nil hne
      obtain ⟨hc, htail⟩ := List.forall_mem_cons.mp hdigits
      rw [List.cons_append, first_digit hc, List.takeWhile_append_of_pos htail]
      simp [size]
  | symbol symbol =>
      cases symbol with
      | assign => exact Nat.le_refl 2
      | lessEqual => exact Nat.le_refl 2
      | arrow => exact Nat.le_refl 2
      | _ => exact hone
  | commentClose => exact Nat.le_refl 2

/-- A plain lexeme does not start with an illegal character. -/
private theorem head_of_isPlain (h : IsPlain s) :
    ∃ c tail, s = c :: tail ∧ (c.isAlphanum = true ∨ c ∈ punctuation) := by
  cases h with
  | word hword =>
      obtain ⟨c, tail, rfl, hc, -⟩ := hword
      exact ⟨c, tail, rfl, .inl (by simp [Char.isAlphanum, hc])⟩
  | digits hne hdigits =>
      obtain ⟨c, tail, rfl⟩ := List.exists_cons_of_ne_nil hne
      exact ⟨c, tail, rfl, .inl (by simp [Char.isAlphanum, hdigits c List.mem_cons_self])⟩
  | symbol symbol => cases symbol <;> exact ⟨_, _, rfl, .inr (by decide)⟩
  | commentClose => exact ⟨_, _, rfl, .inr (by decide)⟩

private theorem isPlain_of_denoted {tok : Token} (h : Token.Denoted s tok) : IsPlain s := by
  cases h with
  | keyword k => exact .word (isWord_spelling k)
  | boolean value => exact .word (isWord_booleanText value)
  | className hword => exact .word (hword.mono fun c hc => by simp [Char.isAlpha, hc])
  | identifier hword => exact .word (hword.mono fun c hc => by simp [Char.isAlpha, hc])
  | integer hne hdigits => exact .digits hne hdigits
  | symbol symbol => exact .symbol symbol
  | commentClose => exact .commentClose

private theorem scannable_of_denoted {tok : Token} (h : Token.Denoted s tok) :
    tok.Scannable config ∧ tok.source config = s := by
  cases h with
  | keyword | boolean | symbol | commentClose => exact ⟨trivial, rfl⟩
  | className hword => exact ⟨hword, rfl⟩
  | identifier hword hreserved => exact ⟨⟨hword, hreserved⟩, rfl⟩
  | integer hne hdigits => exact ⟨⟨hne, hdigits⟩, rfl⟩

/-- A plain lexeme stands for one token only: the one that is read where it stands alone. -/
private theorem denoted_unique {tok tok' : Token} (h : Token.Denoted s tok)
    (h' : Token.Denoted s tok') : tok = tok' := by
  have halone {tok : Token} (h : Token.Denoted s tok) : first {} s = .token tok s.length := by
    obtain ⟨hsound, hsource⟩ := scannable_of_denoted h
    have hfirst := first_source hsound (.inl rfl) fun _ _ _ => rfl
    rwa [hsource, List.append_nil] at hfirst
  have hsame := (halone h).symm.trans (halone h')
  exact (Lexeme.token.inj hsame).1

/-- A token is denoted by the text that it is read from, unless it is a string, a comment that is
not closed, or an illegal character. -/
private theorem denoted_cases {tok : Token} (hspells : tok.Spells s after)
    (hsound : tok.Scannable config) (hquote : (s ++ after).head? ≠ some '"')
    (hcomment : ¬['(', '*'] <+: s ++ after) :
    Token.Denoted s tok ∨ ∃ c, tok = .illegal (.illegalCharacter c) := by
  cases tok with
  | symbol symbol =>
      obtain rfl : s = symbol.spelling := hspells
      exact .inl (.symbol symbol)
  | keyword k =>
      obtain rfl : s = k.spelling := hspells
      exact .inl (.keyword k)
  | boolean value =>
      obtain rfl : s = Token.booleanText value := hspells
      exact .inl (.boolean value)
  | className name =>
      obtain rfl : s = name := hspells
      exact .inl (.className hsound)
  | identifier name =>
      obtain rfl : s = name := hspells
      exact .inl (.identifier hsound.1 hsound.2)
  | integer digits =>
      obtain rfl : s = digits := hspells
      exact .inl (.integer hsound.1 hsound.2)
  | string value =>
      obtain ⟨pieces, -, rfl, -⟩ := hspells
      exact absurd rfl hquote
  | illegal error =>
      cases error with
      | illegalCharacter c => exact .inr ⟨c, rfl⟩
      | unmatchedCommentClose =>
          obtain rfl : s = ['*', ')'] := hspells
          exact .inl .commentClose
      | unterminatedString =>
          obtain ⟨pieces, -, rfl⟩ := hspells
          exact absurd rfl hquote
      | stringTooLong =>
          obtain ⟨pieces, -, rfl | ⟨-, rfl | rfl⟩⟩ := hspells <;> exact absurd rfl hquote
      | stringContainsNull =>
          obtain ⟨pieces, -, rfl | ⟨-, rfl | rfl⟩⟩ := hspells <;> exact absurd rfl hquote
      | endOfInputInString =>
          obtain ⟨pieces, -, -, rfl | rfl⟩ := hspells <;> exact absurd rfl hquote
      | endOfInputInComment =>
          obtain ⟨-, body, rfl, -⟩ := hspells
          exact absurd (List.prefix_append ['(', '*'] (body ++ after)) hcomment
  | endOfInput => cases hsound

/-- A text that starts with a token but with no string and no comment starts with the token of its
longest plain lexeme, or else with an illegal character, and then it starts with no plain lexeme. -/
private theorem first_cases {t : Text} {tok : Token} {n : Nat} (h : first config t = .token tok n)
    (hquote : t.head? ≠ some '"') (hcomment : ¬['(', '*'] <+: t) :
    (∃ s, IsLongest t s ∧ Token.Denoted s tok ∧ n = s.length) ∨
    ∃ c rest, t = c :: rest ∧ tok = .illegal (.illegalCharacter c) ∧ n = 1 ∧
      ∀ s, IsPlain s → ¬s <+: t := by
  have htakes := first_takes config t
  have hsound := first_sound config t
  rw [h] at htakes hsound
  obtain ⟨s, after, rfl, rfl, hspells⟩ := htakes
  rcases denoted_cases hspells hsound hquote hcomment with hdenoted | ⟨c, rfl⟩
  · have hplain := isPlain_of_denoted hdenoted
    refine .inl ⟨s, ⟨hplain, List.prefix_append s after, ?_⟩, hdenoted, rfl⟩
    rintro s' hplain' ⟨after', hsplit⟩
    have hle := length_le_size config hplain' after'
    rwa [hsplit, h] at hle
  · obtain rfl : s = [c] := hspells
    refine .inr ⟨c, after, rfl, rfl, rfl, ?_⟩
    intro s' hplain' hprefix
    obtain ⟨d, tail, rfl, hd⟩ := head_of_isPlain hplain'
    obtain ⟨rfl, -⟩ := List.cons_prefix_cons.mp hprefix
    obtain ⟨-, halnum, hpunctuation⟩ := hsound
    rcases hd with hd | hd
    · rw [hd] at halnum
      cases halnum
    · exact hpunctuation hd

end Lexeme

namespace Lexer

/-- The lexer is about to read a token that the text `t` starts with. -/
structure StartsTokenOn (lexer : Lexer) (t : Text) : Prop where
  running : lexer.halted = false
  ahead : lexer.toNextToken.cursor.rest = t
  nonempty : t ≠ []

/-- Where the lexer reads a token that is no string and no comment, it takes the longest plain
lexeme, or one illegal character if there is no plain lexeme. -/
theorem nextToken_takes_longest (lexer : Lexer) {t : Text} (hstart : lexer.StartsTokenOn t)
    (hquote : t.head? ≠ some '"') (hcomment : ¬['(', '*'] <+: t) :
    ((∃ s, IsPlain s ∧ s <+: t) → ∃ s tok, IsLongest t s ∧
        (∀ tok', Token.Denoted s tok' ↔ tok' = tok) ∧
        lexer.nextToken = (tok, (lexer.toNextToken.skip s.length).reportToken tok)) ∧
      ((∀ s, IsPlain s → ¬s <+: t) → ∃ c rest, t = c :: rest ∧
        lexer.nextToken = (.illegal (.illegalCharacter c),
          (lexer.toNextToken.skip 1).reportToken (.illegal (.illegalCharacter c)))) := by
  have hhalts : lexer.HaltsAtEnd := by
    intro hhalted
    rw [hstart.running] at hhalted
    cases hhalted
  rcases nextLocated_cases lexer hhalts with ⟨hfirst, -⟩ | ⟨tok, n, hfirst, hnext⟩
  · rw [hstart.ahead] at hfirst
    exact absurd (first_eq_endOfText hfirst) hstart.nonempty
  · rw [hstart.ahead] at hfirst
    have htoken : lexer.nextToken = (tok, (lexer.toNextToken.skip n).reportToken tok) :=
      Prod.ext (congrArg (·.1.token) hnext) (congrArg (·.2) hnext)
    rcases first_cases hfirst hquote hcomment with
      ⟨s, hlongest, hdenoted, rfl⟩ | ⟨c, rest, hsplit, rfl, rfl, hnone⟩
    · have hunique (tok' : Token) : Token.Denoted s tok' ↔ tok' = tok :=
        ⟨fun h => denoted_unique h hdenoted, fun h => h ▸ hdenoted⟩
      refine ⟨fun _ => ⟨s, tok, hlongest, hunique, htoken⟩, ?_⟩
      intro hnone
      exact absurd hlongest.starts (hnone s hlongest.plain)
    · refine ⟨?_, fun _ => ⟨c, rest, hsplit, htoken⟩⟩
      rintro ⟨s, hplain, hprefix⟩
      exact absurd hprefix (hnone s hplain)

private theorem toToken_of_token {config : LexerConfig} {cursor : Cursor} {tok : Token} {n : Nat}
    (h : first config cursor.rest = .token tok n) :
    toToken config cursor = (cursor, some (tok, n)) := by
  rw [toToken]
  split <;> simp_all

/-- In front of two hyphens, of which one belongs to the token. -/
theorem nextToken_takes_longest_of_assign :
    let lexer := start "<--x".toList { lineComments := true }
    lexer.StartsTokenOn "<--x".toList ∧ "<--x".toList.head? ≠ some '"' ∧
      ¬['(', '*'] <+: "<--x".toList ∧ IsPlain ['<'] ∧ ['<'] <+: "<--x".toList ∧
      IsLongest "<--x".toList ['<', '-'] ∧
      lexer.nextToken = (.symbol .assign,
        (lexer.toNextToken.skip 2).reportToken (.symbol .assign)) := by
  intro lexer
  have hfirst : first lexer.config lexer.cursor.rest = .token (.symbol .assign) 2 := rfl
  have hstart : lexer.StartsTokenOn "<--x".toList := {
    running := rfl
    ahead := by rw [toNextToken, toToken_of_token hfirst]; rfl
    nonempty := by decide }
  have hquote : "<--x".toList.head? ≠ some '"' := by decide
  have hcomment : ¬['(', '*'] <+: "<--x".toList := by decide
  have hplain : IsPlain ['<'] := .symbol .lessThan
  have hprefix : ['<'] <+: "<--x".toList := by decide
  obtain ⟨s, tok, hlongest, hunique, hnext⟩ :=
    (nextToken_takes_longest lexer hstart hquote hcomment).1 ⟨_, hplain, hprefix⟩
  have hassign : lexer.nextToken.1 = .symbol .assign := by
    simp only [nextToken, toToken_of_token hfirst]
    rfl
  rw [hnext] at hassign
  obtain rfl : tok = .symbol .assign := hassign
  obtain rfl : s = ['<', '-'] := by
    cases (hunique (.symbol .assign)).mpr rfl
    rfl
  exact ⟨hstart, hquote, hcomment, hplain, hprefix, hlongest, hnext⟩

end Lexer

end CoolLexer
