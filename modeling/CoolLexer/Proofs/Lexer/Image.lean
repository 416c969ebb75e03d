import CoolLexer.Proofs.Lexer.Located
import CoolLexer.Proofs.Lexer.TokenSource

/-!
# The token lists that scans give

A scan gives sound tokens, one end token behind them, and nothing between an error at the end of
input and the end token. Every such list is given by the source that writes its tokens one after
another with spaces between them.
-/

namespace CoolLexer

open Lexeme Lexer

/-- The tokens are sound, and an error at the end of input comes last. -/
structure Lexable (config : LexerConfig) (tokens : List Token) : Prop where
  sound : ∀ token ∈ tokens, token.Scannable config
  terminal : ∀ error, Token.illegal error ∈ tokens.dropLast → error.isTerminal = false

/-- The sources of the tokens with spaces between them. -/
def sourceOf (config : LexerConfig) (tokens : List Token) : Text :=
  [' '].intercalate (tokens.map (Token.source config))

section
variable {config : LexerConfig} (file : FileId) (p : Position)

private theorem lexable_nil : Lexable config [] where
  sound := by simp
  terminal := by simp

private theorem lexable_singleton {token : Token} (h : token.Scannable config) :
    Lexable config [token] where
  sound := by simpa using h
  terminal := by simp

private theorem Lexable.cons {token : Token} {tokens : List Token} (h : Lexable config tokens)
    (htoken : token.Scannable config)
    (hterm : ∀ error, token = .illegal error → error.isTerminal = false) :
    Lexable config (token :: tokens) where
  sound := List.forall_mem_cons.mpr ⟨htoken, h.sound⟩
  terminal := by
    intro error hmem
    cases tokens with
    | nil => cases hmem
    | cons next tokens =>
        rcases List.mem_cons.mp hmem with heq | hmem
        · exact hterm error heq.symm
        · exact h.terminal error hmem

private theorem Lexable.tail {token : Token} {tokens : List Token}
    (h : Lexable config (token :: tokens)) : Lexable config tokens where
  sound := (List.forall_mem_cons.mp h.sound).2
  terminal := by
    intro error hmem
    cases tokens with
    | nil => cases hmem
    | cons next tokens => exact h.terminal error (List.mem_cons_of_mem _ hmem)

/-- What a scan gives is sound up to the end token behind it. -/
theorem exists_lexable (t : Text) :
    ∃ tokens, (locate config file p t).map (·.token) = tokens ++ [.endOfInput] ∧
      Lexable config tokens := by
  induction p, t using locate.induct config with
  | case1 p t hfirst =>
      rw [locate_endOfText file p hfirst]
      exact ⟨[], rfl, lexable_nil⟩
  | case2 p t n hfirst ih =>
      rw [locate_trivia file p hfirst]
      exact ih
  | case3 p t tok n hfirst ih =>
      have htok : tok.Scannable config := by
        have h := first_sound config t
        rwa [hfirst] at h
      rw [locate_token file p hfirst]
      by_cases hterm : ∃ error, tok = .illegal error ∧ error.isTerminal = true
      · obtain ⟨error, rfl, hterm⟩ := hterm
        rw [drop_eq_nil_of_isTerminal hfirst hterm, locate_endOfText _ _ rfl]
        exact ⟨[.illegal error], rfl, lexable_singleton htok⟩
      · obtain ⟨tokens, htokens, hlexable⟩ := ih
        refine ⟨tok :: tokens, by rw [List.map_cons, htokens]; rfl, hlexable.cons htok ?_⟩
        intro error heq
        rw [Bool.eq_false_iff]
        exact fun h => hterm ⟨error, heq, h⟩

/-- Where a text starts makes no difference to its tokens. -/
private theorem map_token_locate (q : Position) (t : Text) :
    (locate config file p t).map (·.token) = (locate config file q t).map (·.token) := by
  induction p, t using locate.induct config generalizing q with
  | case1 p t hfirst => rw [locate_endOfText _ p hfirst, locate_endOfText _ q hfirst]; rfl
  | case2 p t n hfirst ih => rw [locate_trivia _ p hfirst, locate_trivia _ q hfirst, ih]
  | case3 p t tok n hfirst ih =>
      rw [locate_token _ p hfirst, locate_token _ q hfirst, List.map_cons, List.map_cons, ih]

private theorem map_token_locate_space (t : Text) :
    (locate config file p (' ' :: t)).map (·.token) =
      (locate config file p t).map (·.token) := by
  rw [locate_blank file p rfl]
  exact map_token_locate ..

/-- The source of sound tokens is scanned as these tokens. -/
theorem map_token_locate_sourceOf {tokens : List Token} (h : Lexable config tokens) :
    (locate config file p (sourceOf config tokens)).map (·.token) = tokens ++ [.endOfInput] := by
  induction tokens generalizing p with
  | nil => rw [sourceOf, List.map_nil, List.intercalate_nil, locate_endOfText file p rfl]; rfl
  | cons token tokens ih =>
      have htoken := h.sound token List.mem_cons_self
      cases tokens with
      | nil =>
          have hfirst := first_source htoken (.inl rfl) (fun _ _ _ => rfl)
          have hsource : sourceOf config [token] = token.source config ++ [] := by simp [sourceOf]
          rw [hsource, locate_token file p hfirst, List.drop_left, locate_endOfText _ _ rfl]
          rfl
      | cons next tokens =>
          have hsource : sourceOf config (token :: next :: tokens) =
              token.source config ++ ' ' :: sourceOf config (next :: tokens) := by simp [sourceOf]
          have hterm : ∀ error, token = .illegal error → error.isTerminal = true →
              ' ' :: sourceOf config (next :: tokens) = [] := by
            rintro error rfl herror
            cases herror.symm.trans (h.terminal error List.mem_cons_self)
          have hfirst := first_source htoken (.inr rfl) hterm
          rw [hsource, locate_token file p hfirst, List.drop_left, List.map_cons,
            map_token_locate_space, ih _ h.tail]
          rfl

end

/-- The token lists that scans give: sound tokens with the end token behind them, where an error at
the end of input comes only just before the end token. -/
theorem exists_scan_tokens_iff (config : LexerConfig) (file : FileId) (tokens : List Token) :
    (∃ source, (scan source config file).1.tokens = tokens) ↔
      ∃ init, tokens = init ++ [.endOfInput] ∧ Token.endOfInput ∉ init ∧
        (∀ token ∈ init, token.Scannable config) ∧
        Token.illegal .endOfInputInString ∉ init.dropLast ∧
        Token.illegal .endOfInputInComment ∉ init.dropLast := by
  have htokens (source : Text) : (scan source config file).1.tokens =
      (locate config file Position.start source).map (·.token) := by
    rw [TokenStream.tokens, scan, toList_tokenize]
  constructor
  · intro h
    obtain ⟨source, rfl⟩ := h
    obtain ⟨init, hinit, hlexable⟩ := exists_lexable file Position.start source
    refine ⟨init, (htokens source).trans hinit, ?_, hlexable.sound, ?_, ?_⟩
    · intro hend
      exact hlexable.sound _ hend
    · intro hstring
      cases hlexable.terminal _ hstring
    · intro hcomment
      cases hlexable.terminal _ hcomment
  · intro h
    obtain ⟨init, rfl, -, hsound, hstring, hcomment⟩ := h
    have hterm : ∀ error, Token.illegal error ∈ init.dropLast → error.isTerminal = false := by
      intro error herror
      cases error with
      | endOfInputInString => exact absurd herror hstring
      | endOfInputInComment => exact absurd herror hcomment
      | _ => rfl
    refine ⟨sourceOf config init, ?_⟩
    rw [htokens]
    exact map_token_locate_sourceOf file Position.start ⟨hsound, hterm⟩

end CoolLexer
