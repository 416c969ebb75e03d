import CoolLexer.Proofs.Lexer.Lookahead
import CoolLexer.Proofs.Lexer.Relocation

/-!
# Sources one after another

Two sources with blanks or block comments between them are scanned as each of them alone, unless the
first one stops in the middle of a literal or a comment, which the second one would be drawn into.
-/

namespace CoolLexer

open Lexeme Lexer

/-- The scan of a source comes to the text `rest` of it when it has read a number of lexemes. -/
inductive Reaches (config : LexerConfig) (source : Text) : Text → Prop
  | start : Reaches config source source
  | trivia {t : Text} {n : Nat} : Reaches config source t → first config t = .trivia n →
      Reaches config source (t.drop n)
  | token {t : Text} {tok : Token} {n : Nat} : Reaches config source t →
      first config t = .token tok n → Reaches config source (t.drop n)

/-- The scan of a source does not end inside a literal or a comment. -/
structure Closed (config : LexerConfig) (source : Text) : Prop where
  string : Token.illegal .endOfInputInString ∉ (scan source config).1.tokens
  comment : Token.illegal .endOfInputInComment ∉ (scan source config).1.tokens
  /-- A literal with a value that cannot be taken has its closing quote all the same. -/
  literal : ∀ located ∈ (scan source config).1.toList,
    located.token = .illegal .stringTooLong ∨ located.token = .illegal .stringContainsNull →
    ∃ slice, source.slice? located.span.start located.span.stop = some slice ∧
      StringLiteral.Quoted slice
  line : config.lineComments = true → ∀ body, Reaches config source ('-' :: '-' :: body) →
    '\n' ∈ body

section
variable {config : LexerConfig} {source rest : Text}

/-- What is read from a place that a scan comes to is part of the scan. -/
private theorem Reaches.exists_located (file : FileId) (h : Reaches config source rest) :
    ∃ before, source = before ++ rest ∧
      ∀ located ∈ locate config file (Position.start.advanceBy before) rest,
        located ∈ locate config file Position.start source := by
  induction h with
  | start => exact ⟨[], rfl, fun _ hmem => hmem⟩
  | @trivia t n _ hfirst ih =>
      obtain ⟨before, hsource, hmem⟩ := ih
      refine ⟨before ++ t.take n, ?_, ?_⟩
      · rw [hsource, List.append_assoc, List.take_append_drop]
      · rw [Position.advanceBy_append, ← locate_trivia file _ hfirst]
        exact hmem
  | @token t tok n _ hfirst ih =>
      obtain ⟨before, hsource, hmem⟩ := ih
      refine ⟨before ++ t.take n, ?_, ?_⟩
      · rw [hsource, List.append_assoc, List.take_append_drop]
      · intro located hlocated
        apply hmem
        rw [locate_token file _ hfirst, ← Position.advanceBy_append]
        exact List.mem_cons_of_mem _ hlocated

/-- No token of a closed source has been cut off. -/
private theorem Closed.complete (h : Closed config source) (hreach : Reaches config source rest)
    {tok : Token} {n : Nat} (hfirst : first config rest = .token tok n) :
    tok.Complete (rest.take n) := by
  obtain ⟨before, hsource, hmem⟩ := hreach.exists_located 0
  have hlocated := hmem _ (locate_token 0 _ hfirst ▸ List.mem_cons_self)
  rw [← toList_scan] at hlocated
  have htok : tok ∈ (scan source config).1.tokens := List.mem_map_of_mem hlocated
  have hslice := Text.slice?_append before (rest.take n) (rest.drop n)
  rw [List.take_append_drop, ← hsource] at hslice
  have hquoted (hbad : tok = .illegal .stringTooLong ∨ tok = .illegal .stringContainsNull) :
      StringLiteral.Quoted (rest.take n) := by
    obtain ⟨slice, hcut, hquoted⟩ := h.literal _ hlocated hbad
    change source.slice? (Position.start.advanceBy before).offset
      ((Position.start.advanceBy before).advanceBy (rest.take n)).offset = some slice at hcut
    rw [Position.advanceBy_offset _ (rest.take n), Position.offset_advanceBy_start, hslice] at hcut
    exact Option.some.inj hcut ▸ hquoted
  cases tok with
  | illegal error =>
      cases error with
      | endOfInputInString => exact absurd htok h.string
      | endOfInputInComment => exact absurd htok h.comment
      | stringTooLong => exact hquoted (.inl rfl)
      | stringContainsNull => exact hquoted (.inr rfl)
      | _ => trivial
  | _ => trivial

end

section
variable {config : LexerConfig} (file : FileId) (p : Position) {t x : Text} {n : Nat}

theorem locate_spacing {w : Text} (h : Spacing w) (x : Text) :
    locate config file p (w ++ x) = locate config file (p.advanceBy w) x := by
  induction h generalizing p with
  | nil => rfl
  | blank hc _ ih =>
      rw [List.cons_append, locate_blank file p (isBlank_iff.mpr hc), ih]
      rfl
  | @block tail rest htail _ ih =>
      have hlength := Comment.blockLength?_eq_some_iff.mpr ⟨tail, rest ++ x, htail, rfl, rfl⟩
      have hfirst : first config ('(' :: '*' :: (tail ++ (rest ++ x))) =
          .trivia ('(' :: '*' :: tail).length := by
        rw [first, ofBlockComment, hlength]
        rfl
      have hsplit : '(' :: '*' :: (tail ++ (rest ++ x)) = ('(' :: '*' :: tail) ++ (rest ++ x) := rfl
      rw [List.cons_append, List.cons_append, List.append_assoc, locate_trivia file p hfirst,
        hsplit, List.take_left, List.drop_left, ih, ← Position.advanceBy_append]
      rfl

private theorem first_eq_trivia_cases (h : first config t = .trivia n) :
    (∃ s after, t = s ++ after ∧ n = s.length ∧ Spacing s) ∨
      config.lineComments = true ∧
        ∃ body, t = '-' :: '-' :: body ∧ n = Comment.lineLength body + 2 := by
  revert h
  fun_cases first config t with
  | case2 body =>
      intro h
      rw [ofBlockComment] at h
      cases hlength : Comment.blockLength? body with
      | none => simp [hlength] at h
      | some m =>
          obtain ⟨s, after, hs, rfl, rfl⟩ := Comment.blockLength?_eq_some_iff.mp hlength
          obtain rfl : s.length + 2 = n := by simpa [hlength] using h
          exact .inl ⟨'(' :: '*' :: s, after, rfl, rfl, spacing_of_tail hs⟩
  | case3 body hon =>
      intro h
      exact .inr ⟨hon, body, rfl, (Lexeme.trivia.inj h).symm⟩
  | case9 c rest =>
      intro h
      obtain ⟨hblank, rfl⟩ := ofPlain_eq_trivia h
      refine .inl ⟨c :: rest.takeWhile isBlank, _, split_run isBlank c rest, rfl, ?_⟩
      refine .blank (isBlank_iff.mp hblank) (spacing_of_blanks fun d hd => ?_)
      exact List.all_eq_true.mp List.all_takeWhile d hd
  | _ =>
      intro h
      cases h

private theorem lineLength_append {body : Text} (h : '\n' ∈ body) (x : Text) :
    Comment.lineLength (body ++ x) = Comment.lineLength body := by
  have hstops : (body.takeWhile (· != '\n')).length ≠ body.length := by
    intro hlength
    have hall : (body.takeWhile (· != '\n')).all (· != '\n') = true := List.all_takeWhile
    rw [(List.takeWhile_prefix _).eq_of_length hlength] at hall
    simpa using List.all_eq_true.mp hall _ h
  rw [Comment.lineLength, Comment.lineLength, List.takeWhile_append, if_neg hstops]

private theorem locate_trivia_append (h : first config t = .trivia n)
    (hline : config.lineComments = true → ∀ body, t = '-' :: '-' :: body → '\n' ∈ body)
    (x : Text) : locate config file p (t ++ x) =
      locate config file (p.advanceBy (t.take n)) (t.drop n ++ x) := by
  have hle := (first_eq_trivia h).2
  rcases first_eq_trivia_cases h with ⟨s, after, rfl, rfl, hs⟩ | ⟨hon, body, rfl, rfl⟩
  · rw [List.take_left, List.drop_left, List.append_assoc, locate_spacing file p hs]
  · have hrun := lineLength_append (hline hon body rfl) x
    have hfirst : first config ('-' :: '-' :: body ++ x) =
        .trivia (Comment.lineLength body + 2) := by
      rw [List.cons_append, List.cons_append, first, if_pos hon, hrun]
    rw [locate_trivia file p hfirst, List.take_append_of_le_length hle,
      List.drop_append_of_le_length hle]

private theorem locate_token_append {tok : Token} (h : first config t = .token tok n)
    (hcomplete : tok.Complete (t.take n)) (hx : SameLead [] x) :
    locate config file p (t ++ x) =
      ⟨tok, Span.between file p (p.advanceBy (t.take n))⟩ ::
        locate config file (p.advanceBy (t.take n)) (t.drop n ++ x) := by
  have hle := (first_eq_token h).2.1
  have hlength : (t.take n).length = n := List.length_take_of_le hle
  have hlead : SameLead (t.drop n) (t.drop n ++ x) := by
    have happend := hx.append (t.drop n)
    rwa [List.append_nil] at happend
  have hsplit : first config (t.take n ++ t.drop n) = .token tok (t.take n).length := by
    rw [List.take_append_drop, hlength]
    exact h
  have hfirst := first_congr hsplit hcomplete hlead
  rw [← List.append_assoc, List.take_append_drop, hlength] at hfirst
  rw [locate_token file p hfirst, List.take_append_of_le_length hle,
    List.drop_append_of_le_length hle]

/-- A closed source is read to its end in front of a text that cannot go on with its last token. -/
private theorem locate_append {source : Text} (hclosed : Closed config source)
    (hx : SameLead [] x) (hreach : Reaches config source t) :
    locate config file p (t ++ x) =
      (locate config file p t).dropLast ++ locate config file (p.advanceBy t) x := by
  induction p, t using locate.induct config with
  | case1 p t hfirst =>
      obtain rfl := first_eq_endOfText hfirst
      rw [locate_endOfText file p hfirst]
      rfl
  | case2 p t n hfirst ih =>
      have hline (hon : config.lineComments = true) (body : Text) (ht : t = '-' :: '-' :: body) :
          '\n' ∈ body := hclosed.line hon body (ht ▸ hreach)
      rw [locate_trivia_append file p hfirst hline, locate_trivia file p hfirst,
        ih (.trivia hreach hfirst), ← Position.advanceBy_append, List.take_append_drop]
  | case3 p t tok n hfirst ih =>
      have hcomplete := hclosed.complete hreach hfirst
      have hne : locate config file (p.advanceBy (t.take n)) (t.drop n) ≠ [] := by
        obtain ⟨tokens, span, htokens⟩ :=
          exists_locate_eq_concat config file (p.advanceBy (t.take n)) (t.drop n)
        simp [htokens]
      rw [locate_token_append file p hfirst hcomplete hx, locate_token file p hfirst,
        ih (.token hreach hfirst), ← Position.advanceBy_append, List.take_append_drop,
        List.dropLast_cons_of_ne_nil hne, List.cons_append]

end

private theorem Spacing.sameLead {w : Text} (h : Spacing w) (hne : w ≠ []) (x : Text) :
    SameLead [] (w ++ x) := by
  intro c hc
  have hhead : (w ++ x).head? ≠ some c := by
    cases h with
    | nil => exact absurd rfl hne
    | blank hblank _ =>
        intro hhead
        obtain rfl := Option.some.inj hhead
        simp [goesOn, Lexeme.isBlank_iff.mpr hblank] at hc
    | block _ _ =>
        intro hhead
        obtain rfl := Option.some.inj hhead
        cases hc
  exact iff_of_false (by simp) hhead

/-- The tokens of two sources with spacing between them are those of the first source without its
end token, and behind them those of the second source, moved to the place where it starts. The
diagnostics follow one another in the same way. -/
theorem scan_append_spacing (config : LexerConfig) (file : FileId) {a w : Text}
    (hclosed : Closed config a) (hspacing : Spacing w) (hne : w ≠ []) (b : Text) :
    let origin := Position.start.advanceBy (a ++ w)
    ∃ tokens span, (scan a config file).1.toList = tokens ++ [⟨.endOfInput, span⟩] ∧
      (scan (a ++ w ++ b) config file).1.toList =
        tokens ++ (scan b config file).1.toList.map (LocatedToken.relocate origin) ∧
      (scan (a ++ w ++ b) config file).2.toList =
        (scan a config file).2.toList ++
          (scan b config file).2.toList.map (Diagnostic.relocate origin) := by
  intro origin
  obtain ⟨tokens, span, hfirst⟩ := exists_locate_eq_concat config file Position.start a
  have hlead := hspacing.sameLead hne b
  have hall : (scan (a ++ w ++ b) config file).1.toList =
      tokens ++ (scan b config file).1.toList.map (LocatedToken.relocate origin) := by
    rw [toList_scan, toList_scan, List.append_assoc,
      locate_append file Position.start hclosed hlead .start, locate_spacing file _ hspacing,
      ← Position.advanceBy_append, locate_relocate config file origin b, hfirst,
      List.dropLast_concat]
  rw [← toList_scan] at hfirst
  refine ⟨tokens, span, hfirst, hall, ?_⟩
  -- The end token of the first source is left out, but there is no diagnostic for it.
  have hlog : tokens.filterMap LocatedToken.diagnostic? = (scan a config file).2.toList := by
    rw [toList_log_scan, hfirst, List.filterMap_append]
    exact (List.append_nil _).symm
  have hmoved : ((scan b config file).1.toList.map (LocatedToken.relocate origin)).filterMap
      LocatedToken.diagnostic? =
        (scan b config file).2.toList.map (Diagnostic.relocate origin) := by
    rw [toList_log_scan, List.filterMap_map, List.map_filterMap]
    exact List.filterMap_congr fun located _ => located.diagnostic?_relocate origin
  rw [toList_log_scan, hall, List.filterMap_append, hlog, hmoved]

private theorem toList_less : (scan ['<'] { lineComments := true }).1.toList =
    [⟨.symbol .lessThan, ⟨0, 1, 1, 1, 0⟩⟩, ⟨.endOfInput, ⟨1, 1, 1, 2, 0⟩⟩] := by
  have hfirst : first { lineComments := true } ['<'] = .token (.symbol .lessThan) 1 := rfl
  rw [toList_scan, locate_token 0 _ hfirst, locate_endOfText 0 _ rfl]
  rfl

private theorem closed_less : Closed { lineComments := true } ['<'] := by
  have hreach (rest : Text) (h : Reaches { lineComments := true } ['<'] rest) :
      rest = ['<'] ∨ rest = [] := by
    induction h with
    | start => exact .inl rfl
    | trivia _ hfirst ih => rcases ih with rfl | rfl <;> cases hfirst
    | token _ hfirst ih =>
        rcases ih with rfl | rfl
        · obtain ⟨rfl, rfl⟩ := Lexeme.token.inj hfirst
          exact .inr rfl
        · cases hfirst
  constructor
  · simp [TokenStream.tokens, toList_less]
  · simp [TokenStream.tokens, toList_less]
  · simp [toList_less]
  · intro _ body h
    rcases hreach _ h with h | h <;> cases h

/-- A comment keeps `<` and `-` apart, which would be one token side by side. -/
theorem scan_append_spacing_of_less_minus :
    Closed { lineComments := true } ['<'] ∧ Spacing ['(', '*', '\n', '*', ')'] ∧
      (scan "<(*\n*)-#".toList { lineComments := true }).1.toList =
        [⟨.symbol .lessThan, ⟨0, 1, 1, 1, 0⟩⟩, ⟨.symbol .minus, ⟨6, 7, 2, 3, 0⟩⟩,
          ⟨.illegal (.illegalCharacter '#'), ⟨7, 8, 2, 4, 0⟩⟩,
          ⟨.endOfInput, ⟨8, 8, 2, 5, 0⟩⟩] := by
  have hspacing : Spacing ['(', '*', '\n', '*', ')'] := by
    have htail : Comment.Tail ['\n', '*', ')'] := .char (by simp) (by simp) .close
    exact .block htail .nil
  have hminus : first { lineComments := true } ['-', '#'] = .token (.symbol .minus) 1 := rfl
  have hhash : first { lineComments := true } ['#'] =
      .token (.illegal (.illegalCharacter '#')) 1 := rfl
  have hscan : (scan ['-', '#'] { lineComments := true }).1.toList =
      [⟨.symbol .minus, ⟨0, 1, 1, 1, 0⟩⟩, ⟨.illegal (.illegalCharacter '#'), ⟨1, 2, 1, 2, 0⟩⟩,
        ⟨.endOfInput, ⟨2, 2, 1, 3, 0⟩⟩] := by
    rw [toList_scan, locate_token 0 _ hminus, List.drop_one, List.tail_cons,
      locate_token 0 _ hhash, locate_endOfText 0 _ rfl]
    rfl
  refine ⟨closed_less, hspacing, ?_⟩
  obtain ⟨tokens, span, hless, hall, -⟩ :=
    scan_append_spacing _ 0 closed_less hspacing (by simp) ['-', '#']
  have hinit := congrArg List.dropLast hless
  rw [toList_less, List.dropLast_concat] at hinit
  rw [hscan, ← hinit] at hall
  exact hall

end CoolLexer
