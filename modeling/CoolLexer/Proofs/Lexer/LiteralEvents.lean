import CoolLexer.Lexer.Reader
import CoolLexer.Proofs.Cursor.Motion
import CoolLexer.Proofs.Lexer.StringLiteral
import Mathlib.Data.List.Basic

/-!
# String literals by their first event

The text behind an opening quote is a row of units: a backslash with the character after it, or
any other character. Units are taken into the value one by one until one of them is an event, and
the first event decides what the literal comes to and where it ends. The scan, which carries its
progress along, comes to the same.
-/

namespace CoolLexer.StringLiteral

/-- The units of a text. A backslash at its end has no character to go with and is left out. -/
def units : Text → List Piece
  | [] => []
  | ['\\'] => []
  | '\\' :: c :: rest => .escaped c :: units rest
  | c :: rest => .plain c :: units rest

/-- What happens at a unit that is not taken into the value. -/
inductive Event where
  | close
  | lineBreak
  | spoil (error : LexicalError)
deriving DecidableEq

/-- The event at a unit behind `accepted` characters of the value, if there is one. Of several the
length comes last. -/
def Piece.event? (limit accepted : Nat) (piece : Piece) : Option Event :=
  if piece = .plain '"' then some .close
  else if piece = .plain '\n' then some .lineBreak
  else if piece.decoded = '\x00' then some (.spoil .stringContainsNull)
  else if limit ≤ accepted then some (.spoil .stringTooLong)
  else none

/-- The first event in a row of units, each with the number of units in front of it. Up to the event
that is also the number of characters in the value. -/
def firstOf? (limit : Nat) (numbered : List (Piece × Nat)) : Option (Nat × Event) :=
  numbered.findSome? fun (piece, i) => (piece.event? limit i).map (i, ·)

def firstEvent? (limit : Nat) (pieces : List Piece) : Option (Nat × Event) :=
  firstOf? limit pieces.zipIdx

/-- The length of a literal through the first unescaped quote behind its first `n` units, or to the
end of the text. -/
def lengthThroughQuote (body : Text) (n : Nat) : Nat :=
  match ((units body).drop n).findIdx? (· = .plain '"') with
  | some k => (spell ((units body).take (n + k + 1))).length
  | none => body.length

/-- What a literal with the text `body` behind its opening quote comes to: its token, and how many
characters of `body` it takes. -/
def reference (limit : Nat) (body : Text) : Token × Nat :=
  match firstEvent? limit (units body) with
  | some (n, .close) =>
      (.string (((units body).take n).map Piece.decoded),
        (spell ((units body).take (n + 1))).length)
  | some (n, .lineBreak) =>
      (.illegal .unterminatedString, (spell ((units body).take (n + 1))).length)
  | some (n, .spoil error) => (.illegal error, lengthThroughQuote body (n + 1))
  | none => (.illegal .endOfInputInString, body.length)

private theorem units_plain {c : Char} (h : c ≠ '\\') (rest : Text) :
    units (c :: rest) = .plain c :: units rest := by
  rw [units]
  · intro heq
    exact absurd heq h
  · intro _ _ heq
    exact absurd heq h

theorem units_spell {pieces : List Piece} (h : .plain '\\' ∉ pieces) (rest : Text) :
    units (spell pieces ++ rest) = pieces ++ units rest := by
  induction pieces with
  | nil => rfl
  | cons piece pieces ih =>
      simp only [List.mem_cons, not_or] at h
      have hrest := ih h.2
      cases piece with
      | escaped c =>
          show units ('\\' :: c :: (spell pieces ++ rest)) = _
          rw [units, hrest]
          rfl
      | plain c =>
          have hc : c ≠ '\\' := fun heq => h.1 (heq ▸ rfl)
          show units (c :: (spell pieces ++ rest)) = _
          rw [units_plain hc, hrest]
          rfl

/-- Taking a unit into the value goes wrong exactly where there is an event. -/
private theorem absorb_cases (limit : Nat) (value : Array Char) {piece : Piece}
    (hquote : piece ≠ .plain '"') (hbreak : piece ≠ .plain '\n') :
    (piece.event? limit value.size = none ∧
      absorb limit (.ok value) piece.value = .ok (value.push piece.value)) ∨
    ∃ error, piece.event? limit value.size = some (.spoil error) ∧
      absorb limit (.ok value) piece.value = .error error := by
  rw [Piece.event?, if_neg hquote, if_neg hbreak, decoded_eq_value]
  by_cases hnul : piece.value = '\x00'
  · exact .inr ⟨.stringContainsNull, by simp [hnul], by simp [absorb, hnul]⟩
  · by_cases hlong : limit ≤ value.size
    · exact .inr ⟨.stringTooLong, by simp [hnul, hlong], by simp [absorb, hnul, hlong]⟩
    · exact .inl ⟨by simp [hnul, hlong], by simp [absorb, hnul, hlong]⟩

private theorem firstOf?_cons (limit i : Nat) (piece : Piece) (pieces : List Piece) :
    firstOf? limit ((piece :: pieces).zipIdx i) =
      match piece.event? limit i with
      | some event => some (i, event)
      | none => firstOf? limit (pieces.zipIdx (i + 1)) := by
  cases hevent : piece.event? limit i with
  | none => simp [firstOf?, hevent]
  | some event => simp [firstOf?, hevent]

/-- A row of units that is passed over without an error is taken into the value. -/
private theorem firstOf?_of_passes {limit : Nat} {p q : Progress} {pieces : List Piece}
    (h : Passes limit p pieces q) {before value : Array Char} (hp : p = .ok before)
    (hq : q = .ok value) (more : List Piece) :
    firstOf? limit ((pieces ++ more).zipIdx before.size) =
      firstOf? limit (more.zipIdx (before.size + pieces.length)) := by
  -- As long as nothing goes wrong, the number of a unit is the size of the value in front of it.
  induction h generalizing before with
  | nil => rfl
  | @cons p q piece pieces hquote _ hbreak hpass ih =>
      subst hp
      have hbreak : piece ≠ .plain '\n' := fun heq => Bool.noConfusion (hbreak heq)
      rw [List.cons_append, firstOf?_cons]
      rcases absorb_cases limit before hquote hbreak with ⟨hevent, habsorb⟩ | ⟨error, -, habsorb⟩
      · have hrest := ih habsorb hq
        have hsize : before.size + (piece :: pieces).length = before.size + 1 + pieces.length := by
          rw [List.length_cons]
          omega
        rw [Array.size_push] at hrest
        rw [hevent, hsize]
        exact hrest
      · cases hq.symm.trans (hpass.of_error habsorb)

/-- The first error in a row of units is the first event. -/
private theorem firstOf?_of_spoiled {limit : Nat} {p q : Progress} {pieces : List Piece}
    (h : Passes limit p pieces q) {before : Array Char} {error : LexicalError} (hp : p = .ok before)
    (hq : q = .error error) (more : List Piece) :
    ∃ front unit back, pieces = front ++ unit :: back ∧
      firstOf? limit ((pieces ++ more).zipIdx before.size) =
        some (before.size + front.length, .spoil error) := by
  induction h generalizing before with
  | nil => cases hp.symm.trans hq
  | @cons p q piece pieces hquote _ hbreak hpass ih =>
      subst hp
      have hbreak : piece ≠ .plain '\n' := fun heq => Bool.noConfusion (hbreak heq)
      rw [List.cons_append, firstOf?_cons]
      rcases absorb_cases limit before hquote hbreak with ⟨hevent, habsorb⟩ | ⟨e, hevent, habsorb⟩
      · obtain ⟨front, unit, back, rfl, hfirst⟩ := ih habsorb hq
        have hsize : before.size + (piece :: front).length = before.size + 1 + front.length := by
          rw [List.length_cons]
          omega
        refine ⟨piece :: front, unit, back, rfl, ?_⟩
        rw [Array.size_push] at hfirst
        rw [hevent, hsize]
        exact hfirst
      · obtain rfl : error = e := Except.error.inj (hq.symm.trans (hpass.of_error habsorb))
        refine ⟨[], piece, pieces, rfl, ?_⟩
        rw [hevent]
        rfl

private theorem length_spell_through (pieces : List Piece) (c : Char) (rest : List Piece) :
    (spell ((pieces ++ .plain c :: rest).take (pieces.length + 1))).length =
      (spell pieces).length + 1 := by
  have htake : (pieces ++ .plain c :: rest).take (pieces.length + 1) = pieces ++ [.plain c] := by
    simp [List.take_append, List.take_of_length_le (Nat.le_succ pieces.length)]
  rw [htake, spell_append, List.length_append]
  rfl

/-- A literal whose value has gone right up to its ending. -/
private theorem reference_of_ok {limit : Nat} {pieces : List Piece} {value : Array Char}
    {ending after : Text} {tok : Token} (hpass : Passes limit (.ok #[]) pieces (.ok value))
    (hends : Ends (.ok value) ending after tok) :
    reference limit (spell pieces ++ (ending ++ after)) =
      (tok, (spell pieces).length + ending.length) := by
  have hunits : units (spell pieces ++ (ending ++ after)) = pieces ++ units (ending ++ after) :=
    units_spell hpass.backslash_notMem _
  have hfirst : firstEvent? limit (pieces ++ units (ending ++ after)) =
      firstOf? limit ((units (ending ++ after)).zipIdx pieces.length) := by
    have h := firstOf?_of_passes hpass rfl rfl (units (ending ++ after))
    simpa [firstEvent?] using h
  have hvalue : value.toList = pieces.map Piece.decoded := by
    rw [funext decoded_eq_value]
    simpa using (hpass.value_eq rfl rfl).1
  rw [reference, hunits, hfirst]
  cases hends with
  | quote =>
      have hquote : units (['"'] ++ after) = .plain '"' :: units after :=
        units_plain (by decide) after
      rw [hquote, firstOf?_cons]
      simp [Piece.event?, closed, hvalue, length_spell_through]
  | newline =>
      have hbreak : units (['\n'] ++ after) = .plain '\n' :: units after :=
        units_plain (by decide) after
      rw [hbreak, firstOf?_cons]
      simp [Piece.event?, length_spell_through]
  | endOfText => simp [firstOf?, units, unclosed]
  | backslash => simp [firstOf?, units, unclosed]

/-- A literal whose value has gone wrong before its ending. -/
private theorem reference_of_error {limit : Nat} {pieces : List Piece} {error : LexicalError}
    {ending after : Text} {tok : Token} (hpass : Passes limit (.ok #[]) pieces (.error error))
    (hends : Ends (.error error) ending after tok) :
    reference limit (spell pieces ++ (ending ++ after)) =
      (tok, (spell pieces).length + ending.length) := by
  have hunits : units (spell pieces ++ (ending ++ after)) = pieces ++ units (ending ++ after) :=
    units_spell hpass.backslash_notMem _
  obtain ⟨front, unit, back, hpieces, hfirst⟩ :=
    firstOf?_of_spoiled hpass rfl rfl (units (ending ++ after))
  have hfirst : firstEvent? limit (pieces ++ units (ending ++ after)) =
      some (front.length, .spoil error) := by simpa [firstEvent?] using hfirst
  have hback : (pieces ++ units (ending ++ after)).drop (front.length + 1) =
      back ++ units (ending ++ after) := by
    rw [hpieces]
    simp [List.drop_append]
  have hquote : back.findIdx? (· = .plain '"') = none := by
    apply List.findIdx?_eq_none_iff.mpr
    intro piece hmem
    have hmem : piece ∈ pieces := by simp [hpieces, hmem]
    apply decide_eq_false
    rintro rfl
    exact hpass.quote_notMem hmem
  rw [reference, hunits, hfirst]
  show (Token.illegal error, lengthThroughQuote _ (front.length + 1)) = _
  rw [lengthThroughQuote, hunits, hback, List.findIdx?_append, hquote]
  cases hends with
  | quote =>
      have hclose : units (['"'] ++ after) = .plain '"' :: units after :=
        units_plain (by decide) after
      have hsize : front.length + 1 + back.length = pieces.length := by
        rw [hpieces, List.length_append, List.length_cons]
        omega
      rw [hclose]
      simp [List.findIdx?_cons, hsize, closed, length_spell_through]
  | newline _ hok => cases hok
  | endOfText => simp [units, unclosed]
  | backslash => simp [units, unclosed]

/-- The first event in a literal decides what the scan of it comes to. -/
theorem scan_eq_reference (limit : Nat) (body : Text) : scan limit body = reference limit body := by
  obtain ⟨pieces, q, ending, after, rfl, hpass, hends, -⟩ :=
    exists_passes limit (.ok #[]) 0 body
  have hscan := scanFrom_spell hpass hends 0
  rw [Nat.zero_add] at hscan
  rw [scan, hscan]
  cases q with
  | ok value => exact (reference_of_ok hpass hends).symm
  | error error => exact (reference_of_error hpass hends).symm

example : reference 2 "ab\n\"c".toList = (.illegal .unterminatedString, 3) := by decide
example : reference 2 "abc\n\"d".toList = (.illegal .stringTooLong, 5) := by decide

end CoolLexer.StringLiteral

namespace CoolLexer.Lexer

/-- Wherever a lexer stands, reading a string literal skips one character, takes the first event
behind it for what the literal comes to, and leaves the lexer behind the literal. -/
theorem readString_eq_reference (lexer : Lexer) :
    lexer.readString =
      let outcome := StringLiteral.reference lexer.config.maxStringLength (lexer.cursor.rest.drop 1)
      (outcome.1, lexer.skip (1 + outcome.2)) := by
  have hskip (n : Nat) : (lexer.skip 1).skip n = lexer.skip (1 + n) :=
    congrArg (fun cursor => { lexer with cursor }) (lexer.cursor.skip_skip 1 n)
  rw [readString, readTail]
  show ((StringLiteral.scan _ (lexer.cursor.rest.drop 1)).1,
    (lexer.skip 1).skip (StringLiteral.scan _ (lexer.cursor.rest.drop 1)).2) = _
  rw [hskip, StringLiteral.scan_eq_reference]

end CoolLexer.Lexer
