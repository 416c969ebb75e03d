import CoolLexer.Proofs.Lexer.Report

/-!
# Scans with a higher limit for strings

The limit for the values of string literals is looked at again with every character of a value. Two
scans with different limits go the same way up to the first literal that is too long for the lower
one, so a source without such a literal is scanned alike.
-/

namespace CoolLexer

namespace StringLiteral

section
variable {limit limit' : Nat} (hle : limit ≤ limit')
include hle

/-- A higher limit only lets a value grow that is as long as the lower one. -/
private theorem absorb_of_le (p : Progress) (c : Char) :
    absorb limit' p c = absorb limit p c ∨ absorb limit p c = .error .stringTooLong := by
  cases p with
  | error e => exact .inl rfl
  | ok value =>
      by_cases hnul : c = '\x00'
      · simp [absorb, hnul]
      · by_cases hlong : limit ≤ value.size
        · exact .inr (by simp [absorb, hnul, hlong])
        · have hlong' : ¬limit' ≤ value.size := by omega
          exact .inl (by simp [absorb, hnul, hlong, hlong'])

/-- Pieces that do not make a value too long are passed over with every higher limit. Another error
on the way hides the length of what follows from both limits. -/
theorem Passes.of_le {p q : Progress} {pieces : List Piece} (h : Passes limit p pieces q)
    (hq : q ≠ .error .stringTooLong) : Passes limit' p pieces q := by
  induction h with
  | nil => exact .nil
  | @cons p q piece pieces hquote hback hbreak hpass ih =>
      rcases absorb_of_le hle p piece.value with habsorb | hlong
      · refine .cons hquote hback hbreak ?_
        rw [habsorb]
        exact ih hq
      · exact absurd (hpass.of_error hlong) hq

end

/-- A literal whose value has gone wrong gives the error, however it ends. -/
theorem Ends.eq_of_error {e : LexicalError} {ending after : Text} {token : Token}
    (h : Ends (.error e) ending after token) : token = .illegal e := by
  cases h with
  | quote => rfl
  | newline _ hok => cases hok
  | endOfText => rfl
  | backslash => rfl

theorem scan_of_le {limit limit' : Nat} (hle : limit ≤ limit') {body : Text}
    (h : (scan limit body).1 ≠ .illegal .stringTooLong) : scan limit' body = scan limit body := by
  obtain ⟨pieces, q, ending, after, rfl, hpass, hends, -⟩ := exists_passes limit (.ok #[]) 0 body
  have hq : q ≠ .error .stringTooLong := by
    rintro rfl
    exact h hends.eq_of_error
  have hlow := scanFrom_spell hpass hends 0
  have hhigh := scanFrom_spell (hpass.of_le hle hq) hends 0
  rw [scan, scan, hhigh, hlow]

end StringLiteral

namespace Lexer

open Lexeme

section
variable {limit limit' : Nat} (hle : limit ≤ limit') (config : LexerConfig)
include hle

/-- Only at a literal that is too long does the first lexeme depend on the limit. -/
private theorem first_of_le {t : Text} {lexeme : Lexeme}
    (hfirst : first (config.withMaxStringLength limit) t = lexeme)
    (h : ∀ n, lexeme ≠ .token (.illegal .stringTooLong) n) :
    first (config.withMaxStringLength limit') t = lexeme := by
  subst hfirst
  fun_cases first (config.withMaxStringLength limit) t with
  | case3 body hon => exact if_pos hon
  | case4 body hoff => exact if_neg hoff
  | case5 body =>
      have hscan : StringLiteral.scan limit' body = StringLiteral.scan limit body := by
        apply StringLiteral.scan_of_le hle
        intro hlong
        exact h _ (congrArg (Lexeme.token · _) hlong)
      exact congrArg ofTail hscan
  | case9 c rest => rw [first] <;> assumption
  | _ => rfl

private theorem locate_of_le (file : FileId) (p : Position) (t : Text)
    (h : ∀ located ∈ locate (config.withMaxStringLength limit) file p t,
      located.token ≠ .illegal .stringTooLong) :
    locate (config.withMaxStringLength limit') file p t =
      locate (config.withMaxStringLength limit) file p t := by
  induction p, t using locate.induct (config.withMaxStringLength limit) with
  | case1 p t hfirst =>
      have hfirst' := first_of_le hle config hfirst (by simp)
      rw [locate_endOfText file p hfirst, locate_endOfText file p hfirst']
  | case2 p t n hfirst ih =>
      have hfirst' := first_of_le hle config hfirst (by simp)
      rw [locate_trivia file p hfirst] at h ⊢
      rw [locate_trivia file p hfirst']
      exact ih h
  | case3 p t tok n hfirst ih =>
      rw [locate_token file p hfirst] at h ⊢
      obtain ⟨htok, hrest⟩ := List.forall_mem_cons.mp h
      have hfirst' : first (config.withMaxStringLength limit') t = .token tok n := by
        apply first_of_le hle config hfirst
        intro m heq
        exact htok (Lexeme.token.inj heq).1
      rw [locate_token file p hfirst', ih hrest]

/-- A scan in which no string literal is too long stays as it is with every higher limit: the tokens
with their spans, and the diagnostics. -/
theorem scan_of_higher_limit (source : Text) (file : FileId)
    (h : Token.illegal .stringTooLong ∉
      (scan source (config.withMaxStringLength limit) file).1.tokens) :
    scan source (config.withMaxStringLength limit') file =
      scan source (config.withMaxStringLength limit) file := by
  have hstream : (scan source (config.withMaxStringLength limit') file).1 =
      (scan source (config.withMaxStringLength limit) file).1 := by
    rw [← TokenStream.toList_inj, toList_scan, toList_scan]
    apply locate_of_le hle config
    intro located hmem hlong
    rw [← toList_scan] at hmem
    exact h (List.mem_map.mpr ⟨located, hmem, hlong⟩)
  have hlog : (scan source (config.withMaxStringLength limit') file).2 =
      (scan source (config.withMaxStringLength limit) file).2 := by
    rw [← DiagnosticLog.toList_inj, toList_log_scan, toList_log_scan, hstream]
  exact Prod.ext hstream hlog

end

private theorem tokens_just_short :
    (scan "\"ab\" \"\x00abc\"".toList (LexerConfig.withMaxStringLength {} 2)).1.tokens =
      [.string ['a', 'b'], .illegal .stringContainsNull, .endOfInput] := by
  have hstring : first (LexerConfig.withMaxStringLength {} 2) "\"ab\" \"\x00abc\"".toList =
      .token (.string ['a', 'b']) 4 := by decide +kernel
  have hblank : first (LexerConfig.withMaxStringLength {} 2) " \"\x00abc\"".toList =
      .trivia 1 := by decide +kernel
  have hnull : first (LexerConfig.withMaxStringLength {} 2) "\"\x00abc\"".toList =
      .token (.illegal .stringContainsNull) 6 := by decide +kernel
  rw [TokenStream.tokens, toList_scan, locate_token 0 _ hstring]
  change _ :: List.map _ (locate _ _ _ " \"\x00abc\"".toList) = _
  rw [locate_trivia 0 _ hblank]
  change _ :: List.map _ (locate _ _ _ "\"\x00abc\"".toList) = _
  rw [locate_token 0 _ hnull]
  change _ :: _ :: List.map _ (locate _ _ _ []) = _
  rw [locate_endOfText 0 _ rfl]
  rfl

/-- A value of just the lower limit, and a longer one with a NUL in front. -/
theorem scan_of_higher_limit_behind_null :
    2 ≤ 3 ∧
      Token.illegal .stringTooLong ∉
        (scan "\"ab\" \"\x00abc\"".toList (LexerConfig.withMaxStringLength {} 2)).1.tokens ∧
      scan "\"ab\" \"\x00abc\"".toList (LexerConfig.withMaxStringLength {} 3) =
        scan "\"ab\" \"\x00abc\"".toList (LexerConfig.withMaxStringLength {} 2) := by
  have hle : 2 ≤ 3 := by decide
  have hshort : Token.illegal .stringTooLong ∉
      (scan "\"ab\" \"\x00abc\"".toList (LexerConfig.withMaxStringLength {} 2)).1.tokens := by
    rw [tokens_just_short]
    decide
  exact ⟨hle, hshort, scan_of_higher_limit hle {} _ 0 hshort⟩

end Lexer

end CoolLexer
