import CoolLexer.Proofs.Lexer.Scannable

/-!
# A source for every token

Every token that a scan can give has a source of its own. It is read as the token wherever a space
or nothing follows it.
-/

namespace CoolLexer

namespace StringLiteral

/-- How a character is written in a literal so that the literal goes on after it. -/
def piece (c : Char) : Piece :=
  if c = '"' ∨ c = '\\' ∨ c = '\n' then .escaped c else .plain c

/-- A literal that is closed. -/
def quoted (pieces : List Piece) : Text := '"' :: (spell pieces ++ ['"'])

private theorem piece_value (c : Char) : (piece c).value = c := by
  unfold piece
  by_cases h : c = '"' ∨ c = '\\' ∨ c = '\n'
  · rw [if_pos h]
    rcases h with rfl | rfl | rfl <;> rfl
  · rw [if_neg h]
    rfl

private theorem piece_ne_plain {c : Char} (d : Char) (hd : d = '"' ∨ d = '\\' ∨ d = '\n') :
    piece c ≠ .plain d := by
  unfold piece
  by_cases h : c = '"' ∨ c = '\\' ∨ c = '\n'
  · simp [h]
  · rw [if_neg h]
    intro heq
    obtain rfl := Piece.plain.inj heq
    exact h hd

/-- A value without NULs that keeps to the limit is taken in as a whole. -/
private theorem passes_value {limit : Nat} (before : Array Char) (value : Text)
    (hnul : '\x00' ∉ value) (hfits : before.size + value.length ≤ limit) :
    Passes limit (.ok before) (value.map piece) (.ok (before ++ value.toArray)) := by
  induction value generalizing before with
  | nil => simpa using Passes.nil
  | cons c value ih =>
      simp only [List.mem_cons, not_or] at hnul
      have hsize : before.size < limit := by
        simp only [List.length_cons] at hfits
        omega
      have habs : absorb limit (.ok before) (piece c).value = .ok (before.push c) := by
        simp [absorb, piece_value, Ne.symm hnul.1, hsize]
      refine .cons (piece_ne_plain _ (by simp)) (piece_ne_plain _ (by simp)) ?_ ?_
      · intro h
        exact absurd h (piece_ne_plain _ (by simp))
      · rw [habs]
        have h := ih (before.push c) hnul.2 (by simpa [Nat.add_assoc, Nat.add_comm 1] using hfits)
        simpa using h

private theorem Passes.concat {limit : Nat} {p q : Progress} {pieces : List Piece}
    (h : Passes limit p pieces q) {c : Char} (hc : c ∉ ['"', '\\', '\n']) :
    Passes limit p (pieces ++ [.plain c]) (absorb limit q c) := by
  induction h with
  | @nil p =>
      simp only [List.mem_cons, List.not_mem_nil, or_false, not_or] at hc
      obtain ⟨hquote, hback, hbreak⟩ := hc
      have hbreak : Piece.plain c = .plain '\n' → p.isOk = false := by
        intro h
        exact absurd (Piece.plain.inj h) hbreak
      exact .cons (by simpa using hquote) (by simpa using hback) hbreak .nil
  | cons hquote hback hbreak _ ih => exact .cons hquote hback hbreak ih

end StringLiteral

open StringLiteral in
/-- A source that the error comes from. -/
def LexicalError.source (limit : Nat) : LexicalError → Text
  | illegalCharacter c => [c]
  | stringTooLong => quoted ((List.replicate limit 'a').map piece ++ [.plain 'a'])
  | stringContainsNull => quoted [.plain '\x00']
  | unterminatedString => ['"', '\n']
  | endOfInputInString => ['"']
  | unmatchedCommentClose => ['*', ')']
  | endOfInputInComment => ['(', '*']

/-- A source that the token comes from. -/
def Token.source (config : LexerConfig) : Token → Text
  | symbol s => s.spelling
  | keyword k => k.spelling
  | boolean value => booleanText value
  | className name | identifier name => name
  | integer digits => digits
  | string value => StringLiteral.quoted (value.map StringLiteral.piece)
  | illegal error => error.source config.maxStringLength
  | endOfInput => []

namespace Lexeme

section
variable {config : LexerConfig} {rest : Text}

private theorem takeWhile_append {p : Char → Bool} (hp : p ' ' = false) {s : Text}
    (hs : ∀ c ∈ s, p c = true) (hrest : rest = [] ∨ rest.head? = some ' ') :
    (s ++ rest).takeWhile p = s := by
  rw [List.takeWhile_append_of_pos hs]
  rcases hrest with rfl | hrest
  · simp
  · obtain ⟨rest, rfl⟩ := List.head?_eq_some_iff.mp hrest
    simp [hp]

private theorem notMem_punctuation {c : Char} (h : c.isAlphanum = true) : c ∉ punctuation := by
  have hall : (punctuation.all fun d => !d.isAlphanum) = true := by decide
  intro hc
  have hnot := List.all_eq_true.mp hall c hc
  simp [h] at hnot

private theorem not_isBlank {c : Char} (h : c.isAlphanum = true) : isBlank c = false := by
  have hall : ([' ', '\t', '\n', '\r', '\x0b', '\x0c'].all fun d => !d.isAlphanum) = true := by
    decide
  rw [Bool.eq_false_iff]
  intro hc
  have hnot := List.all_eq_true.mp hall c (isBlank_iff.mp hc)
  simp [h] at hnot

private theorem ofChar?_of_notMem {c : Char} (h : c ∉ punctuation) : Symbol.ofChar? c = none := by
  simpa using (not_or.mp (mt mem_punctuation_iff.mpr h)).1

private theorem ofChar?_of_isAlphanum {c : Char} (h : c.isAlphanum = true) :
    Symbol.ofChar? c = none :=
  ofChar?_of_notMem (notMem_punctuation h)

private theorem first_of_notMem_punctuation {c : Char} (hc : c ∉ punctuation) (rest : Text) :
    first config (c :: rest) = ofPlain c rest := by
  rw [first]
  all_goals
    intros
    subst_vars
    exact hc (by decide)

private theorem first_symbol (s : Symbol) (hrest : rest = [] ∨ rest.head? = some ' ') :
    first config (s.spelling ++ rest) = .token (.symbol s) s.spelling.length := by
  -- A symbol with a space behind it begins neither a longer symbol nor a comment.
  rcases hrest with rfl | hrest
  · cases s <;> rfl
  · obtain ⟨rest, rfl⟩ := List.head?_eq_some_iff.mp hrest
    cases s <;> rfl

/-- A letter starts the word that goes on with all the word characters behind it. -/
theorem first_letter {c : Char} (hc : c.isAlpha = true) (rest : Text) :
    first config (c :: rest) = .token (Token.ofWord (c :: rest.takeWhile isWordChar))
      ((rest.takeWhile isWordChar).length + 1) := by
  have halnum : c.isAlphanum = true := by simp [Char.isAlphanum, hc]
  rw [first_of_notMem_punctuation (notMem_punctuation halnum)]
  simp only [ofPlain, not_isBlank halnum, ofChar?_of_isAlphanum halnum, hc]
  rfl

/-- A digit starts the number that goes on with all the digits behind it. -/
theorem first_digit {c : Char} (hc : c.isDigit = true) (rest : Text) :
    first config (c :: rest) = .token (.integer (c :: rest.takeWhile Char.isDigit))
      ((rest.takeWhile Char.isDigit).length + 1) := by
  have halnum : c.isAlphanum = true := by simp [Char.isAlphanum, hc]
  have halpha : c.isAlpha = false := by
    grind [Char.isAlpha, Char.isUpper, Char.isLower, Char.isDigit]
  rw [first_of_notMem_punctuation (notMem_punctuation halnum)]
  simp only [ofPlain, not_isBlank halnum, ofChar?_of_isAlphanum halnum, halpha, hc]
  rfl

private theorem first_word {word : Text} {tok : Token} (hword : IsWord Char.isAlpha word)
    (htok : Token.ofWord word = tok) (hrest : rest = [] ∨ rest.head? = some ' ') :
    first config (word ++ rest) = .token tok word.length := by
  obtain ⟨c, tail, rfl, hc, htail⟩ := hword
  subst htok
  have htail : ∀ d ∈ tail, isWordChar d = true := fun d hd => isWordChar_iff.mpr (htail d hd)
  rw [List.cons_append, first_letter hc, takeWhile_append (by decide) htail hrest]
  rfl

private theorem isWord_of_all {c : Char} {tail : Text} (hc : c.isAlpha = true)
    (htail : tail.all isWordChar = true) : IsWord Char.isAlpha (c :: tail) :=
  ⟨c, tail, rfl, hc, fun d hd => isWordChar_iff.mp (List.all_eq_true.mp htail d hd)⟩

theorem isWord_spelling (k : Keyword) : IsWord Char.isAlpha k.spelling := by
  cases k <;> exact isWord_of_all (by decide) (by decide)

theorem isWord_booleanText (value : Bool) :
    IsWord Char.isAlpha (Token.booleanText value) := by
  cases value <;> exact isWord_of_all (by decide) (by decide)

private theorem ofWord_of_ofReserved? {word : Text} {tok : Token}
    (h : Token.ofReserved? word = some tok) : Token.ofWord word = tok := by
  rw [Token.ofWord, h]

private theorem ofWord_className {name : Text} (h : IsWord Char.isUpper name) :
    Token.ofWord name = .className name := by
  obtain ⟨c, tail, rfl, hc, -⟩ := h
  have hkeyword : ∀ k : Keyword, k.spelling.head?.any Char.isUpper = false := by
    intro k
    cases k <;> decide
  have hboolean : ∀ value, (Token.booleanText value).head?.any Char.isUpper = false := by decide
  have hreserved : Token.NotReserved (c :: tail) := by
    constructor
    · intro k hk
      have := hkeyword k
      rw [← hk, List.head?_cons, Option.any_some, hc] at this
      cases this
    · intro value hvalue
      have := hboolean value
      rw [← hvalue, List.head?_cons, Option.any_some, hc] at this
      cases this
  rw [Token.ofWord, ofReserved?_eq_none_iff.mpr hreserved]
  simp [hc]

private theorem ofWord_identifier {name : Text} (h : IsWord Char.isLower name)
    (hreserved : Token.NotReserved name) : Token.ofWord name = .identifier name := by
  obtain ⟨c, tail, rfl, hc, -⟩ := h
  have hupper : c.isUpper = false := by grind [Char.isUpper, Char.isLower]
  rw [Token.ofWord, ofReserved?_eq_none_iff.mpr hreserved]
  simp [hupper]

private theorem first_integer {digits : Text} (hne : digits ≠ [])
    (hdigits : ∀ c ∈ digits, c.isDigit = true) (hrest : rest = [] ∨ rest.head? = some ' ') :
    first config (digits ++ rest) = .token (.integer digits) digits.length := by
  cases digits with
  | nil => exact absurd rfl hne
  | cons c tail =>
      obtain ⟨hc, htail⟩ := List.forall_mem_cons.mp hdigits
      rw [List.cons_append, first_digit hc, takeWhile_append (by decide) htail hrest]
      rfl

private theorem first_illegalCharacter {c : Char}
    (h : (Token.illegal (.illegalCharacter c)).Scannable config) (rest : Text) :
    first config (c :: rest) = .token (.illegal (.illegalCharacter c)) 1 := by
  obtain ⟨hblank, halnum, hc⟩ := h
  have hblank : isBlank c = false := Bool.eq_false_iff.mpr (mt isBlank_iff.mp hblank)
  obtain ⟨halpha, hdigit⟩ := Bool.or_eq_false_iff.mp halnum
  rw [first_of_notMem_punctuation hc]
  simp only [ofPlain, hblank, ofChar?_of_notMem hc, halpha, hdigit]
  rfl

open StringLiteral in
private theorem first_stringLiteral {pieces : List Piece} {q : Progress} {ending after : Text}
    {tok : Token} (hpass : Passes config.maxStringLength (.ok #[]) pieces q)
    (hends : Ends q ending after tok) :
    first config ('"' :: (spell pieces ++ (ending ++ after))) =
      .token tok ((spell pieces).length + ending.length + 1) := by
  rw [first, ofTail, scan, scanFrom_spell hpass hends, Nat.zero_add]

open StringLiteral in
private theorem first_quoted {pieces : List Piece} {q : Progress}
    (hpass : Passes config.maxStringLength (.ok #[]) pieces q) (rest : Text) :
    first config (quoted pieces ++ rest) = .token (closed q) (quoted pieces).length := by
  have h := first_stringLiteral hpass (.quote rest)
  simpa [quoted] using h

open StringLiteral in
private theorem first_error {error : LexicalError} (h : (Token.illegal error).Scannable config)
    (hrest : rest = [] ∨ rest.head? = some ' ') (hterm : error.isTerminal = true → rest = []) :
    first config (error.source config.maxStringLength ++ rest) =
      .token (.illegal error) (error.source config.maxStringLength).length := by
  cases error with
  | illegalCharacter c => exact first_illegalCharacter h rest
  | stringTooLong =>
      have hvalue : Passes config.maxStringLength (.ok #[]) _ _ :=
        passes_value #[] (List.replicate config.maxStringLength 'a') (by simp) (by simp)
      have hpass := hvalue.concat (c := 'a') (by decide)
      have habs : absorb config.maxStringLength
          (.ok (#[] ++ (List.replicate config.maxStringLength 'a').toArray)) 'a' =
            .error .stringTooLong := by simp [absorb]
      rw [habs] at hpass
      exact first_quoted hpass rest
  | stringContainsNull =>
      have hpass : Passes config.maxStringLength (.ok #[]) [.plain '\x00']
          (.error .stringContainsNull) := Passes.nil.concat (by decide)
      exact first_quoted hpass rest
  | unterminatedString =>
      exact first_stringLiteral .nil (.newline rest rfl)
  | endOfInputInString =>
      obtain rfl := hterm rfl
      exact first_stringLiteral .nil .endOfText
  | unmatchedCommentClose => rfl
  | endOfInputInComment =>
      obtain rfl := hterm rfl
      rfl

/-- The source of a token is read as the token, where a space or nothing follows it. -/
theorem first_source {tok : Token} (h : tok.Scannable config)
    (hrest : rest = [] ∨ rest.head? = some ' ')
    (hterm : ∀ error, tok = .illegal error → error.isTerminal = true → rest = []) :
    first config (tok.source config ++ rest) = .token tok (tok.source config).length := by
  cases tok with
  | symbol s => exact first_symbol s hrest
  | keyword k =>
      exact first_word (isWord_spelling k) (ofWord_of_ofReserved? (ofReserved?_spelling k)) hrest
  | boolean value =>
      exact first_word (isWord_booleanText value)
        (ofWord_of_ofReserved? (ofReserved?_booleanText value)) hrest
  | className name =>
      have hword : IsWord Char.isAlpha name := h.mono fun c hc => by simp [Char.isAlpha, hc]
      exact first_word hword (ofWord_className h) hrest
  | identifier name =>
      have hword : IsWord Char.isAlpha name := h.1.mono fun c hc => by simp [Char.isAlpha, hc]
      exact first_word hword (ofWord_identifier h.1 h.2) hrest
  | integer digits => exact first_integer h.1 h.2 hrest
  | string value =>
      have hpass := StringLiteral.passes_value #[] value h.1 (by simpa using h.2)
      have hfirst := first_quoted hpass rest
      rwa [StringLiteral.closed, List.append_toArray, List.nil_append] at hfirst
  | illegal error => exact first_error h hrest (hterm error rfl)
  | endOfInput => cases h

end

end Lexeme

end CoolLexer
