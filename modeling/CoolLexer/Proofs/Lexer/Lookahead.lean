import CoolLexer.Proofs.Lexer.Spelling

/-!
# What follows a token

A token depends on the text after it by one character only, and neither a blank nor a parenthesis
makes a difference to it. The tokens that end with their source are an exception: more text would
belong to them, unless they are complete.
-/

namespace CoolLexer

/-- A literal with its closing quote. -/
def StringLiteral.Quoted (slice : Text) : Prop :=
  ∃ pieces, Inside pieces ∧ slice = '"' :: (spell pieces ++ ['"'])

/-- The token that is read from `slice` has not been cut off by the end of input. -/
def Token.Complete (slice : Text) : Token → Prop
  | illegal .endOfInputInString | illegal .endOfInputInComment => False
  | illegal .stringTooLong | illegal .stringContainsNull => StringLiteral.Quoted slice
  | _ => True

namespace StringLiteral

/-- The scan of a literal that is complete does not look behind it. -/
private theorem scan_congr {limit : Nat} {body after : Text} {tok : Token}
    (h : scan limit (body ++ after) = (tok, body.length)) (hcomplete : tok.Complete ('"' :: body))
    (after' : Text) : scan limit (body ++ after') = (tok, body.length) := by
  obtain ⟨pieces, q, ending, rest, hbody, hpass, hends, hlength⟩ :=
    exists_passes limit (.ok #[]) 0 (body ++ after)
  have hscan : scanFrom limit (.ok #[]) 0 (body ++ after) = (tok, body.length) := h
  rw [hscan] at hends hlength
  -- A literal that ends with the source is complete only if it has its quote after all.
  have hquoted (hopen : tok = unclosed q) : Quoted ('"' :: body) := by
    subst hopen
    cases hq : q with
    | ok value =>
        rw [hq] at hcomplete
        exact absurd hcomplete id
    | error e =>
        rw [hq] at hcomplete
        rcases hpass.error_eq rfl hq with rfl | rfl <;> exact hcomplete
  have hclosed (hopen : tok = unclosed q) :
      scan limit (body ++ after') = (tok, body.length) := by
    obtain ⟨pieces, hinside, hslice⟩ := hquoted hopen
    obtain rfl := (List.cons.inj hslice).2
    have hcongr := scanFrom_quoted_congr limit (.ok #[]) 0 hinside.1 hinside.2 after' after
    rw [← h, scan, scan]
    simpa using hcongr
  have hsplit : body = spell pieces ++ ending := by
    rw [← List.append_assoc] at hbody
    apply List.append_inj_left hbody
    rw [List.length_append]
    dsimp only at hlength
    omega
  have hspell {tok : Token} (hends : Ends q ending after' tok) :
      scan limit (body ++ after') = (tok, body.length) := by
    have hread := scanFrom_spell hpass hends 0
    rw [← List.append_assoc, ← hsplit, ← hlength] at hread
    exact hread
  cases hends with
  | quote => exact hspell (.quote after')
  | newline _ hok => exact hspell (.newline after' hok)
  | endOfText => exact hclosed rfl
  | backslash => exact hclosed rfl

end StringLiteral

namespace Lexeme

/-- A character that may belong to the token in front of it. -/
def goesOn (c : Char) : Bool := !isBlank c && c != '('

/-- The texts start with the same character that may belong to the token in front of them, or
neither of them does. -/
def SameLead (t t' : Text) : Prop := ∀ c, goesOn c = true → (t.head? = some c ↔ t'.head? = some c)

theorem SameLead.append {t t' : Text} (h : SameLead t t') (s : Text) :
    SameLead (s ++ t) (s ++ t') := by
  cases s with
  | nil => exact h
  | cons c s => exact fun _ _ => Iff.rfl

/-- What a text starts with, told by its first character and the one after it. -/
private theorem first_eq (config : LexerConfig) (t : Text) :
    first config t = match t with
      | [] => .endOfText
      | c :: rest =>
          if c = '(' ∧ rest.head? = some '*' then ofBlockComment rest.tail
          else if c = '-' ∧ rest.head? = some '-' then
            if config.lineComments then .trivia (Comment.lineLength rest.tail + 2)
            else .token (.symbol .minus) 1
          else if c = '"' then ofTail (StringLiteral.scan config.maxStringLength rest)
          else if c = '<' then ofTail (afterLess rest)
          else if c = '=' then ofTail (afterEqual rest)
          else if c = '*' then ofTail (afterStar rest)
          else ofPlain c rest := by
  fun_cases first config t with
  | case3 body hon => simp [hon]
  | case4 body hon => simp [hon]
  | case9 c rest hopen hline hquote hless hequal hstar =>
      have hopen : ¬(c = '(' ∧ rest.head? = some '*') := by
        rintro ⟨rfl, hhead⟩
        obtain ⟨body, rfl⟩ := List.head?_eq_some_iff.mp hhead
        exact hopen body rfl rfl
      have hline : ¬(c = '-' ∧ rest.head? = some '-') := by
        rintro ⟨rfl, hhead⟩
        obtain ⟨body, rfl⟩ := List.head?_eq_some_iff.mp hhead
        exact hline body rfl rfl
      have hquote : c ≠ '"' := hquote
      have hless : c ≠ '<' := hless
      have hequal : c ≠ '=' := hequal
      have hstar : c ≠ '*' := hstar
      simp [hopen, hline, hquote, hless, hequal, hstar]
  | _ => rfl

private theorem goesOn_of_isWordChar {c : Char} (h : isWordChar c = true) : goesOn c = true := by
  have hall : ([' ', '\t', '\n', '\r', '\x0b', '\x0c', '('].all fun d => !isWordChar d) = true := by
    decide
  have hnot (hc : c ∈ [' ', '\t', '\n', '\r', '\x0b', '\x0c', '(']) : False := by
    have hword := List.all_eq_true.mp hall c hc
    simp [h] at hword
  have hblank : isBlank c = false := by
    rw [Bool.eq_false_iff]
    intro hc
    exact hnot (List.mem_append_left ['('] (isBlank_iff.mp hc))
  have hopen : c ≠ '(' := by
    rintro rfl
    exact hnot (by simp)
  simp [goesOn, hblank, hopen]

/-- Whether a run ends with `s` is told by the first character after it. -/
private theorem takeWhile_append_congr {p : Char → Bool} {s after after' : Text}
    (hlead : ∀ c, p c = true → (after.head? = some c ↔ after'.head? = some c))
    (h : ((s ++ after).takeWhile p).length = s.length) :
    (s ++ after').takeWhile p = (s ++ after).takeWhile p := by
  induction s with
  | nil =>
      have hstops : after.takeWhile p = [] := List.length_eq_zero_iff.mp h
      have hstops' : after'.takeWhile p = [] := by
        cases after' with
        | nil => rfl
        | cons c rest' =>
            apply List.takeWhile_cons_of_neg
            intro hc
            have hhead : after.head? = some c := (hlead c hc).mpr rfl
            obtain ⟨rest, rfl⟩ := List.head?_eq_some_iff.mp hhead
            simp [hc] at hstops
      rw [List.nil_append, List.nil_append, hstops, hstops']
  | cons c s ih =>
      by_cases hc : p c = true
      · rw [List.cons_append, List.takeWhile_cons_of_pos hc] at h
        rw [List.cons_append, List.cons_append, List.takeWhile_cons_of_pos hc,
          List.takeWhile_cons_of_pos hc, ih (Nat.succ.inj h)]
      · rw [List.cons_append, List.takeWhile_cons_of_neg hc] at h
        cases h

private theorem takeWhile_congr {p : Char → Bool} (hp : ∀ c, p c = true → goesOn c = true)
    {s after after' : Text} (hlead : SameLead after after')
    (h : ((s ++ after).takeWhile p).length = s.length) :
    (s ++ after').takeWhile p = (s ++ after).takeWhile p :=
  takeWhile_append_congr (fun c hc => hlead c (hp c hc)) h

section
variable {t t' : Text} (h : SameLead t t')
include h

private theorem afterLess_congr : afterLess t = afterLess t' := by
  have hhead (t : Text) : afterLess t = if t.head? = some '=' then (.symbol .lessEqual, 1)
      else if t.head? = some '-' then (.symbol .assign, 1) else (.symbol .lessThan, 0) := by
    fun_cases afterLess t with
    | case3 t hequal hminus => cases t <;> simp_all
    | _ => rfl
  simp only [hhead, h '=' rfl, h '-' rfl]

private theorem afterEqual_congr : afterEqual t = afterEqual t' := by
  have hhead (t : Text) : afterEqual t = if t.head? = some '>' then (.symbol .arrow, 1)
      else (.symbol .equal, 0) := by
    fun_cases afterEqual t with
    | case2 t hgreater => cases t <;> simp_all
    | _ => rfl
  simp only [hhead, h '>' rfl]

private theorem afterStar_congr : afterStar t = afterStar t' := by
  have hhead (t : Text) : afterStar t = if t.head? = some ')' then
      (.illegal .unmatchedCommentClose, 1) else (.symbol .multiply, 0) := by
    fun_cases afterStar t with
    | case2 t hclose => cases t <;> simp_all
    | _ => rfl
  simp only [hhead, h ')' rfl]

end

private theorem ofPlain_congr {c : Char} {s after after' : Text} {tok : Token}
    (h : ofPlain c (s ++ after) = .token tok (s.length + 1)) (hlead : SameLead after after') :
    ofPlain c (s ++ after') = .token tok (s.length + 1) := by
  have hword (hrun : ((s ++ after).takeWhile isWordChar).length = s.length) :=
    takeWhile_congr (fun _ => goesOn_of_isWordChar) hlead hrun
  have hdigits (hrun : ((s ++ after).takeWhile Char.isDigit).length = s.length) := by
    refine takeWhile_congr (fun c hc => goesOn_of_isWordChar ?_) hlead hrun
    simp [isWordChar, Char.isAlphanum, hc]
  unfold ofPlain at h ⊢
  by_cases hblank : isBlank c = true
  · rw [if_pos hblank] at h
    cases h
  rw [if_neg hblank] at h ⊢
  cases hs : Symbol.ofChar? c with
  | some s =>
      rw [hs] at h
      exact h
  | none =>
      simp only [hs] at h ⊢
      by_cases halpha : c.isAlpha = true
      · rw [if_pos halpha] at h ⊢
        rw [hword (Nat.succ.inj (Lexeme.token.inj h).2)]
        exact h
      rw [if_neg halpha] at h ⊢
      by_cases hdigit : c.isDigit = true
      · rw [if_pos hdigit] at h ⊢
        rw [hdigits (Nat.succ.inj (Lexeme.token.inj h).2)]
        exact h
      rw [if_neg hdigit] at h ⊢
      exact h

/-- A complete token is read again in front of every text with the same lead. -/
theorem first_congr {config : LexerConfig} {s after after' : Text} {tok : Token}
    (h : first config (s ++ after) = .token tok s.length) (hcomplete : tok.Complete s)
    (hlead : SameLead after after') : first config (s ++ after') = .token tok s.length := by
  cases s with
  | nil => exact absurd (first_eq_token h).1 (Nat.lt_irrefl 0)
  | cons c s =>
      have hrest := hlead.append s
      rw [List.cons_append, first_eq] at h ⊢
      simp only at h ⊢
      simp only [← hrest '*' rfl, ← hrest '-' rfl]
      by_cases hopen : c = '(' ∧ (s ++ after).head? = some '*'
      · -- The token would be a comment that is still open.
        rw [if_pos hopen] at h
        unfold ofBlockComment at h
        split at h
        · cases h
        · obtain ⟨rfl, -⟩ := Lexeme.token.inj h
          exact absurd hcomplete id
      rw [if_neg hopen] at h ⊢
      by_cases hline : c = '-' ∧ (s ++ after).head? = some '-'
      · rw [if_pos hline] at h ⊢
        cases hon : config.lineComments with
        | true => simp [hon] at h
        | false => simpa [hon] using h
      rw [if_neg hline] at h ⊢
      by_cases hquote : c = '"'
      · subst hquote
        obtain ⟨htok, hlength⟩ := Lexeme.token.inj h
        have hscan : StringLiteral.scan config.maxStringLength (s ++ after) = (tok, s.length) :=
          Prod.ext htok (Nat.succ.inj hlength)
        rw [if_pos rfl, StringLiteral.scan_congr hscan hcomplete after']
        rfl
      rw [if_neg hquote] at h ⊢
      rw [← afterLess_congr hrest, ← afterEqual_congr hrest, ← afterStar_congr hrest]
      by_cases hoperator : c = '<' ∨ c = '=' ∨ c = '*'
      · rcases hoperator with rfl | rfl | rfl <;> exact h
      simp only [not_or] at hoperator
      obtain ⟨hless, hequal, hstar⟩ := hoperator
      rw [if_neg hless, if_neg hequal, if_neg hstar] at h ⊢
      exact ofPlain_congr h hlead

theorem ofPlain_eq_trivia {c : Char} {rest : Text} {n : Nat} (h : ofPlain c rest = .trivia n) :
    isBlank c = true ∧ n = (rest.takeWhile isBlank).length + 1 := by
  by_cases hblank : isBlank c = true
  · rw [ofPlain, if_pos hblank] at h
    exact ⟨hblank, (Lexeme.trivia.inj h).symm⟩
  · rw [ofPlain, if_neg hblank] at h
    split at h
    · cases h
    · split at h
      · cases h
      · split at h <;> cases h

section
variable {config : LexerConfig} {s after after' : Text}

/-- A comment that is closed is read again in front of every text. -/
private theorem ofBlockComment_congr {body : Text}
    (h : ofBlockComment (body ++ after) = .trivia (body.length + 2)) :
    ofBlockComment (body ++ after') = .trivia (body.length + 2) := by
  unfold ofBlockComment at h
  split at h
  · next n hlength =>
      obtain ⟨tail, rest, htail, hsplit, rfl⟩ := Comment.blockLength?_eq_some_iff.mp hlength
      have hsize : body.length = tail.length := by
        have := Lexeme.trivia.inj h
        omega
      obtain ⟨rfl, -⟩ := List.append_inj hsplit hsize
      have hlength' := Comment.blockLength?_eq_some_iff.mpr ⟨body, after', htail, rfl, rfl⟩
      rw [ofBlockComment, hlength']
  · cases h

/-- Trivia is read again in front of every text with the same first character. -/
private theorem first_congr_trivia (h : first config (s ++ after) = .trivia s.length)
    (hhead : after.head? = after'.head?) : first config (s ++ after') = .trivia s.length := by
  have hlead (p : Char → Bool) (c : Char) (_ : p c = true) :
      after.head? = some c ↔ after'.head? = some c := by rw [hhead]
  cases s with
  | nil => exact absurd (first_eq_trivia h).1 (Nat.lt_irrefl 0)
  | cons c s =>
      have hrest : (s ++ after).head? = (s ++ after').head? := by
        cases s with
        | nil => exact hhead
        | cons d s => rfl
      rw [List.cons_append, first_eq] at h ⊢
      simp only [← hrest] at h ⊢
      by_cases hopen : c = '(' ∧ (s ++ after).head? = some '*'
      · rw [if_pos hopen] at h ⊢
        cases s with
        | nil =>
            unfold ofBlockComment at h
            split at h <;> simp at h
        | cons d s => exact ofBlockComment_congr h
      rw [if_neg hopen] at h ⊢
      by_cases hline : c = '-' ∧ (s ++ after).head? = some '-'
      · rw [if_pos hline] at h ⊢
        cases hon : config.lineComments with
        | false => simp [hon] at h
        | true =>
            simp only [hon, if_true] at h ⊢
            cases s with
            | nil => simp at h
            | cons d s =>
                have hrun : Comment.lineLength (s ++ after) = s.length := by
                  simpa using h
                have hsame := takeWhile_append_congr (hlead (· != '\n')) hrun
                rw [List.cons_append, List.tail_cons, Comment.lineLength, hsame]
                exact h
      rw [if_neg hline] at h ⊢
      by_cases hstart : c = '"' ∨ c = '<' ∨ c = '=' ∨ c = '*'
      · rcases hstart with rfl | rfl | rfl | rfl <;> cases h
      simp only [not_or] at hstart
      obtain ⟨hquote, hless, hequal, hstar⟩ := hstart
      rw [if_neg hquote, if_neg hless, if_neg hequal, if_neg hstar] at h ⊢
      obtain ⟨hblank, hlength⟩ := ofPlain_eq_trivia h
      have hrun : ((s ++ after).takeWhile isBlank).length = s.length := by simpa using hlength.symm
      have hsame := takeWhile_append_congr (hlead isBlank) hrun
      rw [ofPlain, if_pos hblank, hsame, hrun]
      rfl

theorem spells_of_first {tok : Token} (h : first config (s ++ after) = .token tok s.length) :
    tok.Spells s after := by
  have htakes := first_takes config (s ++ after)
  rw [h] at htakes
  obtain ⟨slice, rest, hsplit, hlength, hspells⟩ := htakes
  obtain ⟨rfl, rfl⟩ := List.append_inj hsplit hlength
  exact hspells

/-- A token with text behind it has not been cut off. -/
theorem complete_of_ne_nil {tok : Token} (h : first config (s ++ after) = .token tok s.length)
    (hne : after ≠ []) : tok.Complete s := by
  have hspells := spells_of_first h
  have hquoted (hbad : ∃ pieces, StringLiteral.Inside pieces ∧
      (s = '"' :: (StringLiteral.spell pieces ++ ['"']) ∨
        StringLiteral.OpenAt pieces s after)) : StringLiteral.Quoted s := by
    obtain ⟨pieces, hinside, hslice | hopen⟩ := hbad
    · exact ⟨pieces, hinside, hslice⟩
    · exact absurd hopen.1 hne
  cases tok with
  | illegal error =>
      cases error with
      | endOfInputInString =>
          obtain ⟨pieces, -, hopen⟩ := hspells
          exact absurd hopen.1 hne
      | endOfInputInComment => exact absurd hspells.1 hne
      | stringTooLong => exact hquoted hspells
      | stringContainsNull => exact hquoted hspells
      | _ => trivial
  | _ => trivial

end

/-- How many characters of its text a lexeme takes. -/
def size : Lexeme → Nat
  | endOfText => 0
  | trivia n | token _ n => n

section
variable {config : LexerConfig}

/-- With text behind it, a lexeme depends on no more than the first character of that text. -/
theorem first_congr_head? {s after after' : Text}
    (hsize : (first config (s ++ after)).size = s.length) (hne : after ≠ [])
    (hhead : after.head? = after'.head?) :
    first config (s ++ after') = first config (s ++ after) := by
  have hlead : SameLead after after' := by
    intro c _
    rw [hhead]
  cases hfirst : first config (s ++ after) with
  | endOfText =>
      have hnil := first_eq_endOfText hfirst
      exact absurd (List.append_eq_nil_iff.mp hnil).2 hne
  | trivia n =>
      rw [hfirst] at hsize
      obtain rfl : n = s.length := hsize
      exact first_congr_trivia hfirst hhead
  | token tok n =>
      rw [hfirst] at hsize
      obtain rfl : n = s.length := hsize
      exact first_congr hfirst (complete_of_ne_nil hfirst hne) hlead

/-- A lexeme that ends inside the front part of a text does not depend on the rest. -/
theorem first_append_congr {t : Text} (q q' : Text) (h : (first config (t ++ q)).size < t.length) :
    first config (t ++ q') = first config (t ++ q) := by
  generalize hn : (first config (t ++ q)).size = n at h
  have hlength : (t.take n).length = n := List.length_take_of_le (Nat.le_of_lt h)
  have hsplit (q : Text) : t ++ q = t.take n ++ (t.drop n ++ q) := by
    rw [← List.append_assoc, List.take_append_drop]
  have hne : t.drop n ≠ [] := by
    rw [Ne, List.drop_eq_nil_iff]
    omega
  have hhead (q : Text) : (t.drop n ++ q).head? = (t.drop n).head? := by
    rw [List.head?_append, Option.or_of_isSome (List.isSome_head?.mpr hne)]
  rw [hsplit q] at hn ⊢
  rw [hsplit q']
  apply first_congr_head? (hn.trans hlength.symm)
  · simp [hne]
  · rw [hhead q, hhead q']

end

end Lexeme

end CoolLexer
