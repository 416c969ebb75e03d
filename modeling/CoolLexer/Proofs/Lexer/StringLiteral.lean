import CoolLexer.Lexer.StringLiteral

/-!
# String literals piece by piece

A literal is a row of pieces, each of them one character of the value as it is written, and an
ending. The scan passes over the pieces one after another, and the ending decides the token.
-/

namespace CoolLexer.StringLiteral

/-- A character of a value as it is written in a literal. -/
inductive Piece where
  | plain (c : Char)
  | escaped (c : Char)
deriving DecidableEq

/-- How a piece is written. -/
def Piece.spelling : Piece → Text
  | plain c => [c]
  | escaped c => ['\\', c]

/-- The escapes that do not stand for the character after the backslash. -/
def escapes : List (Char × Char) := [('n', '\n'), ('t', '\t'), ('b', '\x08'), ('f', '\x0c')]

/-- The character that a piece stands for. -/
def Piece.decoded : Piece → Char
  | plain c => c
  | escaped c => (escapes.lookup c).getD c

/-- The character that the scan takes for a piece. -/
def Piece.value : Piece → Char
  | plain c => c
  | escaped c => unescape c

/-- A row of pieces as it is written. -/
def spell (pieces : List Piece) : Text := pieces.flatMap Piece.spelling

/-- The scan passes over a row of pieces and takes the value read from `p` to `q`. -/
inductive Passes (limit : Nat) : Progress → List Piece → Progress → Prop
  | nil {p : Progress} : Passes limit p [] p
  | cons {p q : Progress} {piece : Piece} {pieces : List Piece} :
      piece ≠ .plain '"' → piece ≠ .plain '\\' → (piece = .plain '\n' → p.isOk = false) →
      Passes limit (absorb limit p piece.value) pieces q → Passes limit p (piece :: pieces) q

/-- How a literal ends whose value has been read up to `p`: the text that ends it, the text after
it, and its token. -/
inductive Ends (p : Progress) : Text → Text → Token → Prop
  | quote (after : Text) : Ends p ['"'] after (closed p)
  | newline (after : Text) : p.isOk = true → Ends p ['\n'] after (.illegal .unterminatedString)
  | endOfText : Ends p [] [] (unclosed p)
  | backslash : Ends p ['\\'] [] (unclosed p)

theorem decoded_eq_value (piece : Piece) : piece.decoded = piece.value := by
  cases piece with
  | plain c => rfl
  | escaped c =>
      show (escapes.lookup c).getD c = unescape c
      unfold unescape
      split
      · rfl
      · rfl
      · rfl
      · rfl
      · next hn ht hb hf =>
          have hlookup : escapes.lookup c = none := by
            simp [escapes, List.lookup_cons, beq_false_of_ne hn, beq_false_of_ne ht,
              beq_false_of_ne hb, beq_false_of_ne hf]
          rw [hlookup]
          rfl

@[simp] theorem spell_nil : spell [] = [] := rfl

@[simp] theorem spell_cons (piece : Piece) (pieces : List Piece) :
    spell (piece :: pieces) = piece.spelling ++ spell pieces := List.flatMap_cons

theorem spell_append (pieces pieces' : List Piece) :
    spell (pieces ++ pieces') = spell pieces ++ spell pieces' := List.flatMap_append

section
variable (limit : Nat) (p : Progress) (used : Nat)

private theorem scanFrom_quote (rest : Text) :
    scanFrom limit p used ('"' :: rest) = (closed p, used + 1) := by
  rw [scanFrom.eq_def]
  rfl

private theorem scanFrom_backslash : scanFrom limit p used ['\\'] = (unclosed p, used + 1) := by
  rw [scanFrom.eq_def]
  rfl

private theorem scanFrom_newline (rest : Text) (hok : p.isOk = true) :
    scanFrom limit p used ('\n' :: rest) = (.illegal .unterminatedString, used + 1) := by
  rw [scanFrom.eq_def]
  simp [hok]

private theorem scanFrom_escape (e : Char) (rest : Text) :
    scanFrom limit p used ('\\' :: e :: rest) =
      scanFrom limit (absorb limit p (unescape e)) (used + 2) rest := by
  rw [scanFrom.eq_def]
  rfl

private theorem scanFrom_plain {c : Char} (rest : Text) (hquote : c ≠ '"') (hback : c ≠ '\\')
    (hbreak : c = '\n' → p.isOk = false) :
    scanFrom limit p used (c :: rest) = scanFrom limit (absorb limit p c) (used + 1) rest := by
  have h : ¬(decide (c = '\n') && p.isOk) = true := by simpa using hbreak
  rw [scanFrom.eq_def]
  simp [hquote, hback, h]

end

/-- Every text of a literal is a row of pieces with an ending, and the scan stops after it. -/
theorem exists_passes (limit : Nat) (p : Progress) (used : Nat) (t : Text) :
    ∃ (pieces : List Piece) (q : Progress) (ending after : Text),
      t = spell pieces ++ (ending ++ after) ∧ Passes limit p pieces q ∧
      Ends q ending after (scanFrom limit p used t).1 ∧
      (scanFrom limit p used t).2 = used + (spell pieces).length + ending.length := by
  induction p, used, t using scanFrom.induct limit with
  | case1 p used => exact ⟨[], p, [], [], rfl, .nil, .endOfText, rfl⟩
  | case2 p used rest =>
      rw [scanFrom_quote]
      exact ⟨[], p, ['"'], rest, rfl, .nil, .quote rest, rfl⟩
  | case3 p used =>
      rw [scanFrom_backslash]
      exact ⟨[], p, ['\\'], [], rfl, .nil, .backslash, rfl⟩
  | case4 p used e rest _ ih =>
      obtain ⟨pieces, q, ending, after, rfl, hpass, hends, hlen⟩ := ih
      rw [scanFrom_escape, hlen]
      refine ⟨.escaped e :: pieces, q, ending, after, rfl, ?_, hends, ?_⟩
      · exact .cons (by simp) (by simp) (by simp) hpass
      · simp only [spell_cons, Piece.spelling, List.length_append, List.length_cons,
          List.length_nil]
        omega
  | case5 p used c rest _ _ hbreak =>
      simp only [Bool.and_eq_true, decide_eq_true_eq] at hbreak
      obtain ⟨rfl, hok⟩ := hbreak
      rw [scanFrom_newline limit p used rest hok]
      exact ⟨[], p, ['\n'], rest, rfl, .nil, .newline rest hok, rfl⟩
  | case6 p used c rest hquote hback hbreak ih =>
      obtain ⟨pieces, q, ending, after, rfl, hpass, hends, hlen⟩ := ih
      have hbreak : c = '\n' → p.isOk = false := by simpa using hbreak
      rw [scanFrom_plain limit p used _ hquote hback hbreak, hlen]
      refine ⟨.plain c :: pieces, q, ending, after, rfl, ?_, hends, ?_⟩
      · exact .cons (by simpa using hquote) (by simpa using hback) (by simpa using hbreak) hpass
      · simp only [spell_cons, Piece.spelling, List.length_append, List.length_cons,
          List.length_nil]
        omega

/-- The scan takes the pieces it can pass over and the ending after them. -/
theorem scanFrom_spell {limit : Nat} {p q : Progress} {pieces : List Piece} {ending after : Text}
    {token : Token} (hpass : Passes limit p pieces q) (hends : Ends q ending after token)
    (used : Nat) :
    scanFrom limit p used (spell pieces ++ (ending ++ after)) =
      (token, used + (spell pieces).length + ending.length) := by
  induction hpass generalizing used with
  | nil =>
      cases hends with
      | quote => exact scanFrom_quote ..
      | newline _ hok => exact scanFrom_newline _ _ _ _ hok
      | endOfText => rfl
      | backslash => exact scanFrom_backslash ..
  | @cons p q piece pieces hquote hback hbreak hpass ih =>
      have hsize : (spell (piece :: pieces)).length =
          piece.spelling.length + (spell pieces).length := by
        rw [spell_cons, List.length_append]
      rw [hsize, spell_cons, List.append_assoc]
      cases piece with
      | escaped e =>
          refine (scanFrom_escape limit p used e _).trans ((ih hends (used + 2)).trans ?_)
          rw [Piece.spelling, ← Nat.add_assoc]
          rfl
      | plain c =>
          have hquote : c ≠ '"' := by simpa using hquote
          have hback : c ≠ '\\' := by simpa using hback
          have hbreak : c = '\n' → p.isOk = false := by simpa using hbreak
          refine (scanFrom_plain limit p used _ hquote hback hbreak).trans
            ((ih hends (used + 1)).trans ?_)
          rw [Piece.spelling, ← Nat.add_assoc]
          rfl

/-- What follows the closing quote of a literal makes no difference to its scan. -/
theorem scanFrom_quoted_congr (limit : Nat) (p : Progress) (used : Nat) {pieces : List Piece}
    (hquote : .plain '"' ∉ pieces) (hback : .plain '\\' ∉ pieces) (after after' : Text) :
    scanFrom limit p used (spell pieces ++ '"' :: after) =
      scanFrom limit p used (spell pieces ++ '"' :: after') := by
  induction pieces generalizing p used with
  | nil => exact (scanFrom_quote limit p used after).trans (scanFrom_quote limit p used after').symm
  | cons piece pieces ih =>
      simp only [List.mem_cons, not_or] at hquote hback
      have hrest (p : Progress) (used : Nat) := ih p used hquote.2 hback.2
      rw [spell_cons, List.append_assoc, List.append_assoc]
      cases piece with
      | escaped e =>
          have hescape := scanFrom_escape limit p used e
          exact (hescape _).trans ((hrest _ _).trans (hescape _).symm)
      | plain c =>
          have hc : c ≠ '"' := fun heq => hquote.1 (heq ▸ rfl)
          have hc' : c ≠ '\\' := fun heq => hback.1 (heq ▸ rfl)
          by_cases hbreak : c = '\n' → p.isOk = false
          · have hplain (rest : Text) := scanFrom_plain limit p used rest hc hc' hbreak
            exact (hplain _).trans ((hrest _ _).trans (hplain _).symm)
          · obtain ⟨rfl, hok⟩ := Classical.not_imp.mp hbreak
            have hok : p.isOk = true := by simpa using hok
            have hnewline (rest : Text) := scanFrom_newline limit p used rest hok
            exact (hnewline _).trans (hnewline _).symm

/-- No piece that the scan passes over is an unescaped quote. -/
theorem Passes.quote_notMem {limit : Nat} {p q : Progress} {pieces : List Piece}
    (h : Passes limit p pieces q) : .plain '"' ∉ pieces := by
  induction h with
  | nil => simp
  | cons hquote _ _ _ ih => simp [ih, Ne.symm hquote]

theorem Passes.backslash_notMem {limit : Nat} {p q : Progress} {pieces : List Piece}
    (h : Passes limit p pieces q) : .plain '\\' ∉ pieces := by
  induction h with
  | nil => simp
  | cons _ hback _ _ ih => simp [ih, Ne.symm hback]

/-- The first error stays. -/
theorem Passes.of_error {limit : Nat} {p q : Progress} {pieces : List Piece}
    (h : Passes limit p pieces q) {e : LexicalError} (hp : p = .error e) : q = .error e := by
  induction h with
  | nil => exact hp
  | cons _ _ _ _ ih =>
      subst hp
      exact ih rfl

theorem Passes.append {limit : Nat} {p q r : Progress} {pieces pieces' : List Piece}
    (h : Passes limit p pieces q) (h' : Passes limit q pieces' r) :
    Passes limit p (pieces ++ pieces') r := by
  induction h with
  | nil => exact h'
  | cons hquote hback hbreak _ ih => exact .cons hquote hback hbreak (ih h')

theorem Passes.of_append {limit : Nat} {p r : Progress} {pieces pieces' : List Piece}
    (h : Passes limit p (pieces ++ pieces') r) :
    ∃ q, Passes limit p pieces q ∧ Passes limit q pieces' r := by
  induction pieces generalizing p with
  | nil => exact ⟨p, .nil, h⟩
  | cons piece pieces ih =>
      cases h with
      | cons hquote hback hbreak hrest =>
          obtain ⟨q, hfront, hback'⟩ := ih hrest
          exact ⟨q, .cons hquote hback hbreak hfront, hback'⟩

/-- A character is taken into the value, or makes one of two errors. -/
theorem absorb_ok (limit : Nat) (value : Array Char) (c : Char) :
    (c ≠ '\x00' ∧ value.size < limit ∧ absorb limit (.ok value) c = .ok (value.push c)) ∨
      absorb limit (.ok value) c = .error .stringContainsNull ∨
      absorb limit (.ok value) c = .error .stringTooLong := by
  by_cases hc : c = '\x00'
  · simp [absorb, hc]
  · by_cases hsize : limit ≤ value.size
    · simp [absorb, hc, hsize]
    · refine .inl ⟨hc, by omega, ?_⟩
      simp [absorb, hc, hsize]

/-- A value that has been read to the end without an error is that of the pieces. -/
theorem Passes.value_eq {limit : Nat} {p q : Progress} {pieces : List Piece}
    (h : Passes limit p pieces q) {before value : Array Char} (hp : p = .ok before)
    (hq : q = .ok value) :
    value.toList = before.toList ++ pieces.map Piece.value ∧ .plain '\n' ∉ pieces ∧
      '\x00' ∉ pieces.map Piece.value ∧ (before.size ≤ limit → value.size ≤ limit) := by
  induction h generalizing before with
  | nil =>
      obtain rfl := Except.ok.inj (hp.symm.trans hq)
      simp
  | @cons p q piece pieces _ _ hbreak hpass ih =>
      subst hp
      rcases absorb_ok limit before piece.value with ⟨hnul, hsize, habs⟩ | habs | habs
      · obtain ⟨hvalue, hline, hnuls, hfits⟩ := ih habs hq
        refine ⟨by simp [hvalue], ?_, ?_, ?_⟩
        · have hpiece : piece ≠ .plain '\n' := fun hc => Bool.noConfusion (hbreak hc)
          simp [hline, Ne.symm hpiece]
        · simp only [List.map_cons, List.mem_cons, not_or]
          exact ⟨Ne.symm hnul, hnuls⟩
        · intro _
          exact hfits (by rw [Array.size_push]; omega)
      · cases hq.symm.trans (hpass.of_error habs)
      · cases hq.symm.trans (hpass.of_error habs)

/-- Reading a value goes wrong in two ways only. -/
theorem Passes.error_eq {limit : Nat} {p q : Progress} {pieces : List Piece}
    (h : Passes limit p pieces q) {before : Array Char} {e : LexicalError} (hp : p = .ok before)
    (hq : q = .error e) : e = .stringContainsNull ∨ e = .stringTooLong := by
  induction h generalizing before with
  | nil => simp [hp] at hq
  | @cons p q piece pieces _ _ _ hpass ih =>
      subst hp
      rcases absorb_ok limit before piece.value with ⟨-, -, habs⟩ | habs | habs
      · exact ih habs hq
      · exact .inl (Except.error.inj (hq.symm.trans (hpass.of_error habs)))
      · exact .inr (Except.error.inj (hq.symm.trans (hpass.of_error habs)))

end CoolLexer.StringLiteral
