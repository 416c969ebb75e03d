import CoolLexer.Proofs.Lexer.Spelling
import Mathlib

/-!
# The tokens that a text can start with

The value of a scanned token is bound by its kind: names and numbers have their shapes, names are
no reserved words, and the value of a string is as long as the limit allows. An illegal character is
one that begins nothing else.
-/

namespace CoolLexer

namespace Lexeme

/-- The characters that start a symbol, a comment or a string literal. -/
def punctuation : Text := "()\x7b\x7d:,;.@~+/-*<=\"".toList

/-- A word whose first character satisfies `p`. -/
def IsWord (p : Char → Bool) (word : Text) : Prop :=
  ∃ c tail, word = c :: tail ∧ p c = true ∧ ∀ d ∈ tail, d.isAlphanum = true ∨ d = '_'

end Lexeme

open Lexeme

/-- The word is no keyword and no boolean. -/
def Token.NotReserved (word : Text) : Prop :=
  (∀ k : Keyword, word ≠ k.spelling) ∧ ∀ value, word ≠ Token.booleanText value

/-- A scan can give this token. -/
def Token.Scannable (config : LexerConfig) : Token → Prop
  | identifier name => IsWord Char.isLower name ∧ NotReserved name
  | className name => IsWord Char.isUpper name
  | integer digits => digits ≠ [] ∧ ∀ c ∈ digits, c.isDigit = true
  | string value => '\x00' ∉ value ∧ value.length ≤ config.maxStringLength
  | illegal (.illegalCharacter c) =>
      c ∉ [' ', '\t', '\n', '\r', '\x0b', '\x0c'] ∧ c.isAlphanum = false ∧ c ∉ punctuation
  | symbol _ | keyword _ | boolean _ | illegal _ => True
  | endOfInput => False

namespace Lexeme

theorem isWordChar_iff {c : Char} : isWordChar c = true ↔ c.isAlphanum = true ∨ c = '_' := by
  simp [isWordChar]

theorem IsWord.mono {p q : Char → Bool} {word : Text} (h : IsWord p word)
    (hpq : ∀ c, p c = true → q c = true) : IsWord q word := by
  obtain ⟨c, tail, hword, hc, htail⟩ := h
  exact ⟨c, tail, hword, hpq c hc, htail⟩

/-- The token of the lexeme, if it is a token, is one that a scan can give. -/
def Sound (config : LexerConfig) : Lexeme → Prop
  | token tok _ => tok.Scannable config
  | _ => True

theorem mem_punctuation_iff {c : Char} :
    c ∈ punctuation ↔ Symbol.ofChar? c ≠ none ∨ c ∈ ['*', '<', '=', '"'] := by
  have hsplit : punctuation = "()\x7b\x7d:,;.@~+/-".toList ++ ['*', '<', '=', '"'] := by decide
  have hsymbol : c ∈ "()\x7b\x7d:,;.@~+/-".toList ↔ Symbol.ofChar? c ≠ none := by
    constructor
    · intro hc
      have hall : ("()\x7b\x7d:,;.@~+/-".toList.all fun d => (Symbol.ofChar? d).isSome) = true := by
        decide
      have h := List.all_eq_true.mp hall c hc
      exact Option.isSome_iff_ne_none.mp h
    · intro h
      unfold Symbol.ofChar? at h
      split at h
      case h_14 => exact absurd rfl h
      all_goals decide
  rw [hsplit, List.mem_append, hsymbol]

theorem ofReserved?_spelling (k : Keyword) :
    Token.ofReserved? k.spelling = some (.keyword k) := by
  cases k <;> decide

theorem ofReserved?_booleanText (value : Bool) :
    Token.ofReserved? (Token.booleanText value) = some (.boolean value) := by
  cases value <;> decide

theorem ofReserved?_eq_none_iff {word : Text} :
    Token.ofReserved? word = none ↔ Token.NotReserved word := by
  constructor
  · intro h
    constructor
    · rintro k rfl
      cases (ofReserved?_spelling k).symm.trans h
    · rintro value rfl
      cases (ofReserved?_booleanText value).symm.trans h
  · intro h
    obtain ⟨hkeyword, hboolean⟩ := h
    unfold Token.ofReserved?
    rw [if_neg (hboolean true), if_neg (hboolean false)]
    cases hk : Keyword.ofSpelling? word with
    | none => rfl
    | some k =>
        have := List.find?_some hk
        exact absurd (eq_of_beq this).symm (hkeyword k)

private theorem ofReserved?_scannable (config : LexerConfig) {word : Text} {tok : Token}
    (h : Token.ofReserved? word = some tok) : tok.Scannable config := by
  unfold Token.ofReserved? at h
  split at h
  · obtain rfl := Option.some.inj h
    trivial
  split at h
  · obtain rfl := Option.some.inj h
    trivial
  · obtain ⟨k, -, rfl⟩ := Option.map_eq_some_iff.mp h
    trivial

private theorem ofWord_scannable (config : LexerConfig) {c : Char} {tail : Text}
    (hc : c.isAlpha = true) (htail : ∀ d ∈ tail, isWordChar d = true) :
    (Token.ofWord (c :: tail)).Scannable config := by
  have hword {p : Char → Bool} (hp : p c = true) : IsWord p (c :: tail) :=
    ⟨c, tail, rfl, hp, fun d hd => isWordChar_iff.mp (htail d hd)⟩
  unfold Token.ofWord
  cases hreserved : Token.ofReserved? (c :: tail) with
  | some tok => exact ofReserved?_scannable config hreserved
  | none =>
      rcases Bool.or_eq_true_iff.mp hc with hupper | hlower
      · simp only [List.head?_cons, Option.any_some, hupper, if_true]
        exact hword hupper
      · have hupper : c.isUpper = false := by grind [Char.isUpper, Char.isLower]
        simp only [List.head?_cons, Option.any_some, hupper]
        exact ⟨hword hlower, ofReserved?_eq_none_iff.mp hreserved⟩

private theorem ofPlain_sound (config : LexerConfig) {c : Char} (rest : Text)
    (hc : c ∉ ['*', '<', '=', '"']) : (ofPlain c rest).Sound config := by
  unfold ofPlain
  by_cases hblank : isBlank c = true
  · rw [if_pos hblank]
    trivial
  rw [if_neg hblank]
  cases hs : Symbol.ofChar? c with
  | some s => trivial
  | none =>
      by_cases halpha : c.isAlpha = true
      · simp only [halpha, if_true]
        exact ofWord_scannable config halpha (List.all_eq_true.mp List.all_takeWhile)
      by_cases hdigit : c.isDigit = true
      · simp only [halpha, hdigit, if_true]
        refine ⟨List.cons_ne_nil _ _, List.forall_mem_cons.mpr ⟨hdigit, ?_⟩⟩
        exact List.all_eq_true.mp List.all_takeWhile
      · simp only [halpha, hdigit]
        refine ⟨mt isBlank_iff.mpr hblank, ?_, ?_⟩
        · simp [Char.isAlphanum, halpha, hdigit]
        · rw [mem_punctuation_iff, hs]
          simpa using hc

open StringLiteral in
private theorem ends_scannable {config : LexerConfig} {pieces : List Piece} {q : Progress}
    {ending after : Text} {tok : Token}
    (hpass : Passes config.maxStringLength (.ok #[]) pieces q) (hends : Ends q ending after tok) :
    tok.Scannable config := by
  have herror {e : LexicalError} (hq : q = .error e) : (Token.illegal e).Scannable config := by
    rcases hpass.error_eq rfl hq with rfl | rfl <;> trivial
  have hunclosed : (unclosed q).Scannable config := by
    cases hq : q with
    | ok value => trivial
    | error e => exact herror hq
  cases hends with
  | quote =>
      cases hq : q with
      | ok value =>
          obtain ⟨hvalue, -, hnul, hfits⟩ := hpass.value_eq rfl hq
          refine ⟨?_, by simpa using hfits (by simp)⟩
          simpa [hvalue] using hnul
      | error e => exact herror hq
  | newline => trivial
  | endOfText => exact hunclosed
  | backslash => exact hunclosed

/-- A token that a text starts with is one that a scan can give. -/
theorem first_sound (config : LexerConfig) (t : Text) : (first config t).Sound config := by
  fun_cases first config t with
  | case1 => trivial
  | case2 body =>
      unfold ofBlockComment
      split <;> trivial
  | case3 => trivial
  | case4 => trivial
  | case5 body =>
      obtain ⟨_, _, _, _, -, hpass, hends, -⟩ :=
        StringLiteral.exists_passes config.maxStringLength (.ok #[]) 0 body
      exact ends_scannable hpass hends
  | case6 rest =>
      unfold ofTail afterLess
      split <;> trivial
  | case7 rest =>
      unfold ofTail afterEqual
      split <;> trivial
  | case8 rest =>
      unfold ofTail afterStar
      split <;> trivial
  | case9 c rest _ _ hquote hless hequal hstar =>
      apply ofPlain_sound
      simp only [List.mem_cons, not_or]
      exact ⟨hstar, hless, hequal, hquote, List.not_mem_nil⟩

end Lexeme

end CoolLexer
