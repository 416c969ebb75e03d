import CoolLexer.Lexer.Lexeme
import CoolLexer.Proofs.Lexer.Comment
import CoolLexer.Proofs.Lexer.StringLiteral

/-!
# What lexemes are read from

A lexeme takes the text that spells its token, or a row of blanks and comments. Some spellings are
bound to what follows them: an error at the end of input takes all the rest, and a line comment runs
up to a newline or to the end.
-/

namespace CoolLexer

/-- Blanks and comments, in front of the text `after`. -/
inductive Trivia (config : LexerConfig) : Text → Text → Prop
  | nil (after : Text) : Trivia config [] after
  | blank {c : Char} {gap after : Text} : c ∈ [' ', '\t', '\n', '\r', '\x0b', '\x0c'] →
      Trivia config gap after → Trivia config (c :: gap) after
  | block {tail gap after : Text} : Comment.Tail tail →
      Trivia config gap after → Trivia config ('(' :: '*' :: (tail ++ gap)) after
  | line {body gap after : Text} : config.lineComments = true → '\n' ∉ body →
      gap ++ after = [] ∨ (gap ++ after).head? = some '\n' →
      Trivia config gap after → Trivia config ('-' :: '-' :: (body ++ gap)) after

/-- Trivia that any text may follow: blanks, and block comments, which are closed. -/
inductive Spacing : Text → Prop
  | nil : Spacing []
  | blank {c : Char} {rest : Text} : c ∈ [' ', '\t', '\n', '\r', '\x0b', '\x0c'] →
      Spacing rest → Spacing (c :: rest)
  | block {tail rest : Text} : Comment.Tail tail → Spacing rest →
      Spacing ('(' :: '*' :: (tail ++ rest))

/-- No quote that is not escaped. A plain backslash is no piece: it would start an escape. -/
def StringLiteral.Inside (pieces : List Piece) : Prop :=
  .plain '"' ∉ pieces ∧ .plain '\\' ∉ pieces

/-- Besides, no newline that is not escaped. -/
def StringLiteral.OnOneLine (pieces : List Piece) : Prop :=
  Inside pieces ∧ .plain '\n' ∉ pieces

/-- A literal that is still open at the end of input, which may end inside an escape. -/
def StringLiteral.OpenAt (pieces : List Piece) (slice after : Text) : Prop :=
  after = [] ∧ (slice = '"' :: spell pieces ∨ slice = '"' :: (spell pieces ++ ['\\']))

open StringLiteral in
/-- The text that an error covers, in front of the text `after`. -/
def LexicalError.Covers : LexicalError → Text → Text → Prop
  | illegalCharacter c, slice, _ => slice = [c]
  | unmatchedCommentClose, slice, _ => slice = ['*', ')']
  | unterminatedString, slice, _ =>
      ∃ pieces, OnOneLine pieces ∧ slice = '"' :: (spell pieces ++ ['\n'])
  | stringTooLong, slice, after | stringContainsNull, slice, after =>
      ∃ pieces, Inside pieces ∧
        (slice = '"' :: (spell pieces ++ ['"']) ∨ OpenAt pieces slice after)
  | endOfInputInString, slice, after => ∃ pieces, OnOneLine pieces ∧ OpenAt pieces slice after
  | endOfInputInComment, slice, after =>
      after = [] ∧ ∃ body, slice = '(' :: '*' :: body ∧ ∀ s rest, Comment.Tail s → body ≠ s ++ rest

open StringLiteral in
/-- The text that a token is read from, in front of the text `after`. -/
def Token.Spells : Token → Text → Text → Prop
  | symbol s, slice, _ => slice = s.spelling
  | keyword k, slice, _ => slice = k.spelling
  | boolean value, slice, _ => slice = booleanText value
  | className name, slice, _ | identifier name, slice, _ => slice = name
  | integer digits, slice, _ => slice = digits
  | string value, slice, _ => ∃ pieces, OnOneLine pieces ∧
      slice = '"' :: (spell pieces ++ ['"']) ∧ value = pieces.map Piece.decoded
  | illegal error, slice, after => error.Covers slice after
  | endOfInput, slice, after => slice = [] ∧ after = []

namespace Lexeme

/-- A lexeme takes the text in front of `t` that it stands for. -/
def Takes (config : LexerConfig) (t : Text) : Lexeme → Prop
  | endOfText => t = []
  | trivia n => ∃ s after, t = s ++ after ∧ n = s.length ∧ Trivia config s after
  | token tok n => ∃ s after, t = s ++ after ∧ n = s.length ∧ tok.Spells s after

end Lexeme

theorem Trivia.append {config : LexerConfig} {s gap after : Text}
    (hs : Trivia config s (gap ++ after)) (hgap : Trivia config gap after) :
    Trivia config (s ++ gap) after := by
  generalize hrest : gap ++ after = rest at hs
  induction hs with
  | nil => exact hgap
  | blank hc _ ih => exact .blank hc (ih hrest)
  | @block tail s' rest htail _ ih =>
      rw [List.cons_append, List.cons_append, List.append_assoc]
      exact .block htail (ih hrest)
  | @line body s' rest hon hbody hend _ ih =>
      rw [List.cons_append, List.cons_append, List.append_assoc]
      refine .line hon hbody ?_ (ih hrest)
      rwa [List.append_assoc, hrest]

namespace Lexeme

theorem isBlank_iff {c : Char} :
    isBlank c = true ↔ c ∈ [' ', '\t', '\n', '\r', '\x0b', '\x0c'] := by
  simp [isBlank, or_assoc]

theorem first_blank (config : LexerConfig) {c : Char} (h : isBlank c = true) (rest : Text) :
    first config (c :: rest) = .trivia ((rest.takeWhile isBlank).length + 1) := by
  have hblank := isBlank_iff.mp h
  rw [first, ofPlain, if_pos h]
  all_goals
    intros
    subst_vars
    exact absurd hblank (by decide)

theorem spacing_of_blanks {s : Text} (h : ∀ c ∈ s, isBlank c = true) : Spacing s := by
  induction s with
  | nil => exact .nil
  | cons c s ih =>
      have hrest := ih fun d hd => h d (List.mem_cons_of_mem c hd)
      exact .blank (isBlank_iff.mp (h c List.mem_cons_self)) hrest

theorem spacing_of_tail {tail : Text} (h : Comment.Tail tail) : Spacing ('(' :: '*' :: tail) := by
  have hspacing : Spacing ('(' :: '*' :: (tail ++ [])) := .block h .nil
  rwa [List.append_nil] at hspacing

private theorem trivia_of_spacing {config : LexerConfig} {s : Text} (h : Spacing s)
    (after : Text) : Trivia config s after := by
  induction h with
  | nil => exact .nil after
  | blank hc _ ih => exact .blank hc ih
  | block htail _ ih => exact .block htail ih

private theorem ofChar?_spelling {c : Char} {s : Symbol} (h : Symbol.ofChar? c = some s) :
    s.spelling = [c] := by
  unfold Symbol.ofChar? at h
  split at h <;> cases h <;> rfl

private theorem ofWord_spells (word after : Text) : (Token.ofWord word).Spells word after := by
  unfold Token.ofWord Token.ofReserved?
  by_cases htrue : word = Token.booleanText true
  · simp only [htrue]
    rfl
  by_cases hfalse : word = Token.booleanText false
  · simp only [hfalse]
    rfl
  rw [if_neg htrue, if_neg hfalse]
  cases hk : Keyword.ofSpelling? word with
  | some k =>
      have := List.find?_some hk
      exact (eq_of_beq this).symm
  | none =>
      simp only [Option.map_none]
      split <;> rfl

private theorem takes_trivia {config : LexerConfig} {s after : Text} (h : Trivia config s after) :
    (Lexeme.trivia s.length).Takes config (s ++ after) :=
  ⟨s, after, rfl, rfl, h⟩

private theorem takes_token {config : LexerConfig} {tok : Token} {s after : Text}
    (h : tok.Spells s after) : (Lexeme.token tok s.length).Takes config (s ++ after) :=
  ⟨s, after, rfl, rfl, h⟩

/-- A first character and a run of further ones are a piece of their own. -/
theorem split_run (p : Char → Bool) (c : Char) (rest : Text) :
    c :: rest = (c :: rest.takeWhile p) ++ rest.dropWhile p := by
  rw [List.cons_append, List.takeWhile_append_dropWhile]

private theorem ofPlain_takes (config : LexerConfig) (c : Char) (rest : Text) :
    (ofPlain c rest).Takes config (c :: rest) := by
  unfold ofPlain
  by_cases hblank : isBlank c = true
  · rw [if_pos hblank, split_run isBlank c rest]
    apply takes_trivia
    refine trivia_of_spacing (spacing_of_blanks ?_) _
    intro d hd
    rcases List.mem_cons.mp hd with rfl | hd
    · exact hblank
    · exact List.all_eq_true.mp List.all_takeWhile d hd
  rw [if_neg hblank]
  cases hs : Symbol.ofChar? c with
  | some s => exact takes_token (s := [c]) (ofChar?_spelling hs).symm
  | none =>
      by_cases halpha : c.isAlpha = true
      · simp only [halpha, if_true]
        rw [split_run isWordChar c rest]
        exact takes_token (ofWord_spells _ _)
      by_cases hdigit : c.isDigit = true
      · simp only [halpha, hdigit, if_true]
        rw [split_run Char.isDigit c rest]
        exact takes_token rfl
      · simp only [halpha, hdigit]
        exact takes_token (s := [c]) rfl

private theorem ofBlockComment_takes (config : LexerConfig) (body : Text) :
    (ofBlockComment body).Takes config ('(' :: '*' :: body) := by
  unfold ofBlockComment
  cases h : Comment.blockLength? body with
  | some n =>
      obtain ⟨s, after, hs, rfl, rfl⟩ := Comment.blockLength?_eq_some_iff.mp h
      exact ⟨'(' :: '*' :: s, after, rfl, rfl, trivia_of_spacing (spacing_of_tail hs) after⟩
  | none =>
      refine ⟨'(' :: '*' :: body, [], by simp, rfl, rfl, body, rfl, ?_⟩
      exact Comment.blockLength?_eq_none_iff.mp h

private theorem lineComment_takes {config : LexerConfig} (hon : config.lineComments = true)
    (body : Text) :
    (Lexeme.trivia (Comment.lineLength body + 2)).Takes config ('-' :: '-' :: body) := by
  have hline : '\n' ∉ body.takeWhile (· != '\n') := by
    intro h
    simpa using List.all_eq_true.mp List.all_takeWhile _ h
  have hafter : body.dropWhile (· != '\n') = [] ∨
      (body.dropWhile (· != '\n')).head? = some '\n' := by
    have h := List.head?_dropWhile_not (· != '\n') body
    cases hc : body.dropWhile (· != '\n') with
    | nil => exact .inl rfl
    | cons c rest =>
        rw [hc] at h
        exact .inr (congrArg some (by simpa using h))
  refine ⟨'-' :: '-' :: body.takeWhile (· != '\n'), body.dropWhile (· != '\n'), ?_, rfl, ?_⟩
  · rw [List.cons_append, List.cons_append, List.takeWhile_append_dropWhile]
  · simpa using Trivia.line hon hline hafter (.nil _)

open StringLiteral in
private theorem stringLiteral_spells {limit : Nat} {pieces : List Piece} {q : Progress}
    {ending after : Text} {tok : Token} (hpass : Passes limit (.ok #[]) pieces q)
    (hends : Ends q ending after tok) : tok.Spells ('"' :: (spell pieces ++ ending)) after := by
  have hinside : Inside pieces := ⟨hpass.quote_notMem, hpass.backslash_notMem⟩
  have hline {value : Array Char} (hq : q = .ok value) : OnOneLine pieces :=
    ⟨hinside, (hpass.value_eq rfl hq).2.1⟩
  cases hends with
  | quote =>
      cases hq : q with
      | ok value =>
          have hvalue : value.toList = pieces.map Piece.decoded := by
            rw [funext decoded_eq_value]
            simpa using (hpass.value_eq rfl hq).1
          exact ⟨pieces, hline hq, rfl, hvalue⟩
      | error e =>
          rcases hpass.error_eq rfl hq with rfl | rfl <;> exact ⟨pieces, hinside, .inl rfl⟩
  | newline _ hok =>
      cases hq : q with
      | ok value => exact ⟨pieces, hline hq, rfl⟩
      | error e => simp [hq, Except.isOk, Except.toBool] at hok
  | endOfText =>
      have hopen : OpenAt pieces ('"' :: (spell pieces ++ [])) [] := ⟨rfl, .inl (by simp)⟩
      cases hq : q with
      | ok value => exact ⟨pieces, hline hq, hopen⟩
      | error e =>
          rcases hpass.error_eq rfl hq with rfl | rfl <;> exact ⟨pieces, hinside, .inr hopen⟩
  | backslash =>
      have hopen : OpenAt pieces ('"' :: (spell pieces ++ ['\\'])) [] := ⟨rfl, .inr rfl⟩
      cases hq : q with
      | ok value => exact ⟨pieces, hline hq, hopen⟩
      | error e =>
          rcases hpass.error_eq rfl hq with rfl | rfl <;> exact ⟨pieces, hinside, .inr hopen⟩

open StringLiteral in
private theorem stringLiteral_takes (config : LexerConfig) (limit : Nat) (body : Text) :
    (ofTail (scan limit body)).Takes config ('"' :: body) := by
  obtain ⟨pieces, q, ending, after, hbody, hpass, hends, hlen⟩ :=
    exists_passes limit (.ok #[]) 0 body
  refine ⟨'"' :: (spell pieces ++ ending), after, ?_, ?_, stringLiteral_spells hpass hends⟩
  · rw [hbody, List.cons_append, List.append_assoc]
  · rw [scan, hlen]
    simp only [List.length_cons, List.length_append]
    omega

/-- The first lexeme of a text takes what it stands for. -/
theorem first_takes (config : LexerConfig) (t : Text) : (first config t).Takes config t := by
  fun_cases first config t with
  | case1 => rfl
  | case2 body => exact ofBlockComment_takes config body
  | case3 body hon => exact lineComment_takes hon body
  | case4 body => exact ⟨['-'], '-' :: body, rfl, rfl, rfl⟩
  | case5 body => exact stringLiteral_takes config config.maxStringLength body
  | case6 rest =>
      unfold ofTail afterLess
      split
      · exact ⟨['<', '='], _, rfl, rfl, rfl⟩
      · exact ⟨['<', '-'], _, rfl, rfl, rfl⟩
      · exact ⟨['<'], rest, rfl, rfl, rfl⟩
  | case7 rest =>
      unfold ofTail afterEqual
      split
      · exact ⟨['=', '>'], _, rfl, rfl, rfl⟩
      · exact ⟨['='], rest, rfl, rfl, rfl⟩
  | case8 rest =>
      unfold ofTail afterStar
      split
      · exact ⟨['*', ')'], _, rfl, rfl, rfl⟩
      · exact ⟨['*'], rest, rfl, rfl, rfl⟩
  | case9 c rest => exact ofPlain_takes config c rest

end Lexeme

end CoolLexer
