import CoolLexer.Proofs.Lexer.Concatenation
import CoolLexer.Proofs.Lexer.Scannable

/-!
# Line breaks of two characters

With a carriage return in front of every newline a source is scanned as before, as long as none of
its strings goes on behind an escaped newline: the backslash then escapes the carriage return, and
the newline breaks the string off.
-/

namespace CoolLexer

namespace Text

/-- The text with a carriage return in front of every newline. -/
def withReturns (t : Text) : Text := t.flatMap fun c => if c = '\n' then ['\r', '\n'] else [c]

@[simp] theorem withReturns_nil : withReturns [] = [] := rfl

@[simp] theorem withReturns_newline (t : Text) :
    withReturns ('\n' :: t) = '\r' :: '\n' :: withReturns t := rfl

theorem withReturns_cons {c : Char} (h : c ≠ '\n') (t : Text) :
    withReturns (c :: t) = c :: withReturns t := by
  simp [withReturns, h]

theorem withReturns_append (s t : Text) :
    withReturns (s ++ t) = withReturns s ++ withReturns t := List.flatMap_append

theorem withReturns_of_notMem {t : Text} (h : '\n' ∉ t) : withReturns t = t := by
  induction t with
  | nil => rfl
  | cons c t ih =>
      simp only [List.mem_cons, not_or] at h
      rw [withReturns_cons (Ne.symm h.1), ih h.2]

/-- Where the first character is no newline, it stays. -/
theorem head?_withReturns_iff (t : Text) {c : Char} (hreturn : c ≠ '\r') (hnewline : c ≠ '\n') :
    (withReturns t).head? = some c ↔ t.head? = some c := by
  cases t with
  | nil => rfl
  | cons d t =>
      by_cases hd : d = '\n'
      · subst hd
        simp [Ne.symm hreturn, Ne.symm hnewline]
      · rw [withReturns_cons hd]
        rfl

end Text

open Text

private theorem tail_withReturns {s : Text} (h : Comment.Tail s) :
    Comment.Tail (withReturns s) := by
  induction h with
  | close => exact .close
  | @nested inner rest _ _ ihi ihr =>
      rw [withReturns_cons (by decide), withReturns_cons (by decide), withReturns_append]
      exact .nested ihi ihr
  | @char c rest hopen hclose _ ih =>
      by_cases hc : c = '\n'
      · subst hc
        exact .char (by simp) (by simp) (.char (by simp) (by simp) ih)
      · rw [withReturns_cons hc]
        refine .char ?_ ?_ ih
        · intro hparen hhead
          exact hopen hparen ((head?_withReturns_iff rest (by decide) (by decide)).mp hhead)
        · intro hstar hhead
          exact hclose hstar ((head?_withReturns_iff rest (by decide) (by decide)).mp hhead)

open Lexeme Lexer

private theorem sameLead_withReturns (t : Text) : SameLead t (withReturns t) := by
  intro c hc
  have hreturn : c ≠ '\r' := by
    rintro rfl
    cases hc
  have hnewline : c ≠ '\n' := by
    rintro rfl
    cases hc
  exact (head?_withReturns_iff t hreturn hnewline).symm

section
variable {config : LexerConfig} (file : FileId) (q : Position) {t : Text} {n : Nat}

private theorem locate_lineComment (hon : config.lineComments = true) {run rest : Text}
    (hrun : '\n' ∉ run) (hrest : rest = [] ∨ rest.head? = some '\n') :
    locate config file q ('-' :: '-' :: (run ++ rest)) =
      locate config file (q.advanceBy ('-' :: '-' :: run)) rest := by
  have hall : ∀ c ∈ run, (c != '\n') = true := by
    intro c hc
    rw [bne_iff_ne]
    rintro rfl
    exact hrun hc
  have hstops : rest.takeWhile (· != '\n') = [] := by
    rcases hrest with rfl | hhead
    · rfl
    · obtain ⟨tail, rfl⟩ := List.head?_eq_some_iff.mp hhead
      rfl
  have hfirst : first config ('-' :: '-' :: (run ++ rest)) =
      .trivia ('-' :: '-' :: run).length := by
    rw [first, if_pos hon, Comment.lineLength, List.takeWhile_append_of_pos hall, hstops,
      List.append_nil]
    rfl
  have hsplit : '-' :: '-' :: (run ++ rest) = ('-' :: '-' :: run) ++ rest := rfl
  rw [locate_trivia file q hfirst, hsplit, List.take_left, List.drop_left]

/-- The carriage return at the end of a line comment belongs to the comment. -/
private theorem locate_lineComment_withReturns (hon : config.lineComments = true)
    {run rest : Text} (hrun : '\n' ∉ run) (hrest : rest = [] ∨ rest.head? = some '\n') :
    locate config file q (withReturns ('-' :: '-' :: (run ++ rest))) =
      locate config file (q.advanceBy (withReturns ('-' :: '-' :: run))) (withReturns rest) := by
  have hrun' : '\n' ∉ '-' :: '-' :: run := by simpa using hrun
  have hsplit : '-' :: '-' :: (run ++ rest) = ('-' :: '-' :: run) ++ rest := rfl
  rw [hsplit, withReturns_append, withReturns_of_notMem hrun']
  rcases hrest with rfl | hhead
  · exact locate_lineComment file q hon hrun (.inl rfl)
  · obtain ⟨tail, rfl⟩ := List.head?_eq_some_iff.mp hhead
    have hreturn : '\n' ∉ run ++ ['\r'] := by simpa using hrun
    have htail : '\n' :: withReturns tail = [] ∨
        ('\n' :: withReturns tail).head? = some '\n' := .inr rfl
    have hcomment := locate_lineComment file q hon hreturn htail
    rw [List.append_assoc, ← List.cons_append, ← List.cons_append, ← List.cons_append,
      ← List.cons_append, Position.advanceBy_append] at hcomment
    rw [withReturns_newline, locate_blank file _ rfl]
    exact hcomment

/-- Trivia is trivia with the carriage returns as well. -/
private theorem locate_withReturns_of_trivia {s after : Text} (h : Trivia config s after) :
    locate config file q (withReturns (s ++ after)) =
      locate config file (q.advanceBy (withReturns s)) (withReturns after) := by
  induction h generalizing q with
  | nil => rfl
  | @blank c gap after hc _ ih =>
      have hblank := isBlank_iff.mpr hc
      by_cases hnewline : c = '\n'
      · subst hnewline
        rw [List.cons_append, withReturns_newline, locate_blank file q rfl,
          locate_blank file _ hblank, ih]
        rfl
      · rw [List.cons_append, withReturns_cons hnewline, withReturns_cons hnewline,
          locate_blank file q hblank, ih]
        rfl
  | @block tail gap after htail _ ih =>
      have hspacing : Spacing (withReturns ('(' :: '*' :: tail)) := by
        rw [withReturns_cons (by decide), withReturns_cons (by decide)]
        exact spacing_of_tail (tail_withReturns htail)
      have hsplit (rest : Text) : '(' :: '*' :: (tail ++ rest) = ('(' :: '*' :: tail) ++ rest := rfl
      rw [List.cons_append, List.cons_append, List.append_assoc, hsplit, hsplit,
        withReturns_append _ (gap ++ after), locate_spacing file q hspacing, ih,
        withReturns_append _ gap, Position.advanceBy_append]
  | @line body gap after hon hbody hend _ ih =>
      have hsplit : '-' :: '-' :: (body ++ gap) = ('-' :: '-' :: body) ++ gap := rfl
      rw [List.cons_append, List.cons_append, List.append_assoc,
        locate_lineComment_withReturns file q hon hbody hend, ih, hsplit, withReturns_append,
        Position.advanceBy_append]

private theorem locate_trivia_withReturns (h : first config t = .trivia n) :
    locate config file q (withReturns t) =
      locate config file (q.advanceBy (withReturns (t.take n))) (withReturns (t.drop n)) := by
  have htakes := first_takes config t
  rw [h] at htakes
  obtain ⟨s, after, rfl, rfl, htrivia⟩ := htakes
  rw [List.take_left, List.drop_left]
  exact locate_withReturns_of_trivia file q htrivia

end

namespace StringLiteral

/-- Behind the backslash of an escaped newline, a carriage return is taken for the value. The
newline after it breaks the literal off. -/
private theorem scan_return {limit : Nat} {pieces pieces' : List Piece} {value : Array Char}
    (h : Passes limit (.ok #[]) (pieces ++ .escaped '\n' :: pieces') (.ok value)) (rest : Text) :
    scan limit (spell pieces ++ '\\' :: '\r' :: '\n' :: rest) =
      (.illegal .unterminatedString, (spell pieces).length + 3) := by
  obtain ⟨q, hfront, hback⟩ := h.of_append
  cases hback with
  | cons _ _ _ hrest =>
      -- The value so far has room for the newline, and so for the carriage return.
      have hroom : ∃ before : Array Char, q = .ok before ∧ before.size < limit := by
        cases q with
        | error e => cases hrest.of_error rfl
        | ok before =>
            rcases absorb_ok limit before '\n' with ⟨-, hsize, -⟩ | habs | habs
            · exact ⟨before, rfl, hsize⟩
            · cases hrest.of_error habs
            · cases hrest.of_error habs
      obtain ⟨before, rfl, hsize⟩ := hroom
      have habs : absorb limit (.ok before) '\r' = .ok (before.push '\r') := by
        simp [absorb, hsize]
      have hreturn : Passes limit (.ok before) [.escaped '\r'] (.ok (before.push '\r')) :=
        .cons (by simp) (by simp) (by simp) (habs ▸ .nil)
      have hscan := scanFrom_spell (hfront.append hreturn) (.newline rest rfl) 0
      rw [scan]
      simpa [spell_append, Piece.spelling, Nat.add_assoc] using hscan

private theorem newline_mem_spell {pieces : List Piece} (h : .plain '\n' ∉ pieces) :
    '\n' ∈ spell pieces ↔ .escaped '\n' ∈ pieces := by
  induction pieces with
  | nil => simp
  | cons piece pieces ih =>
      simp only [List.mem_cons, not_or] at h
      rw [spell_cons, List.mem_append, ih h.2, List.mem_cons]
      cases piece with
      | plain c =>
          have hc : '\n' ≠ c := by simpa using h.1
          simp [Piece.spelling, hc]
      | escaped c => simp [Piece.spelling]

private theorem ends_string {q : Progress} {ending after value : Text}
    (h : Ends q ending after (.string value)) : ending = ['"'] ∧ ∃ chars, q = .ok chars := by
  generalize htok : Token.string value = tok at h
  cases h with
  | quote =>
      cases q with
      | ok chars => exact ⟨rfl, chars, rfl⟩
      | error e => cases htok
  | newline => cases htok
  | endOfText => cases q <;> cases htok
  | backslash => cases q <;> cases htok

/-- A string that goes on behind a newline is broken off with the carriage returns. -/
private theorem scan_broken_withReturns {limit : Nat} {body value : Text} {n : Nat}
    (h : scan limit body = (.string value, n)) (hnewline : '\n' ∈ body.take n) :
    ∃ m, scan limit (withReturns body) = (.illegal .unterminatedString, m) := by
  obtain ⟨pieces, q, ending, after, hbody, hpass, hends, hlength⟩ :=
    exists_passes limit (.ok #[]) 0 body
  rw [scan] at h
  rw [h] at hends hlength
  obtain ⟨rfl, chars, rfl⟩ := ends_string hends
  have hn : n = (spell pieces).length + 1 := by simpa using hlength
  have htake : body.take n = spell pieces ++ ['"'] := by
    rw [hbody, ← List.append_assoc]
    apply List.take_left'
    simp [hn]
  have hplain := (hpass.value_eq rfl rfl).2.1
  have hescaped : .escaped '\n' ∈ pieces := by
    rw [← newline_mem_spell hplain]
    simpa [htake] using hnewline
  obtain ⟨front, back, rfl, hfirst⟩ := List.eq_append_cons_of_mem hescaped
  have hfront : '\n' ∉ spell front := by
    rw [newline_mem_spell fun hmem => hplain (List.mem_append_left _ hmem)]
    exact hfirst
  have hreturns : withReturns body = spell front ++ '\\' :: '\r' :: '\n' ::
      withReturns (spell back ++ '"' :: after) := by
    rw [hbody, spell_append, spell_cons, Piece.spelling]
    simp only [List.append_assoc, List.cons_append, List.nil_append]
    rw [withReturns_append, withReturns_of_notMem hfront, withReturns_cons (by decide),
      withReturns_newline]
  rw [hreturns]
  exact ⟨_, scan_return hpass _⟩

end StringLiteral

/-- The text of a token that is neither a string nor an error stands on one line. -/
private theorem newline_notMem_of_spells {config : LexerConfig} {tok : Token} {s after : Text}
    (hspells : tok.Spells s after) (hsound : tok.Scannable config)
    (hillegal : tok.isIllegal = false) (hstring : tok.kind ≠ .string) : '\n' ∉ s := by
  have hword {p : Char → Bool} {word : Text} (hp : p '\n' = false) (h : IsWord p word) :
      '\n' ∉ word := by
    obtain ⟨c, tail, rfl, hc, htail⟩ := h
    intro hmem
    rcases List.mem_cons.mp hmem with rfl | hmem
    · simp [hp] at hc
    · rcases htail _ hmem with halnum | hunder
      · exact absurd halnum (by decide)
      · exact absurd hunder (by decide)
  cases tok with
  | symbol symbol =>
      obtain rfl : s = symbol.spelling := hspells
      cases symbol <;> decide
  | keyword word =>
      obtain rfl : s = word.spelling := hspells
      cases word <;> decide
  | boolean value =>
      obtain rfl : s = Token.booleanText value := hspells
      cases value <;> decide
  | className name =>
      obtain rfl : s = name := hspells
      exact hword rfl hsound
  | identifier name =>
      obtain rfl : s = name := hspells
      exact hword rfl hsound.1
  | integer digits =>
      obtain rfl : s = digits := hspells
      exact fun hmem => absurd (hsound.2 _ hmem) (by decide)
  | string value => exact absurd rfl hstring
  | illegal error => cases hillegal
  | endOfInput => cases hsound

section
variable {config : LexerConfig} {s after : Text} {tok : Token}

private theorem first_withReturns_of_notMem (h : first config (s ++ after) = .token tok s.length)
    (hillegal : tok.isIllegal = false) (hnewline : '\n' ∉ s) :
    first config (withReturns (s ++ after)) = .token tok s.length := by
  have hcomplete : tok.Complete s := by
    cases tok with
    | illegal error => cases hillegal
    | _ => trivial
  rw [withReturns_append, withReturns_of_notMem hnewline]
  exact first_congr h hcomplete (sameLead_withReturns after)

private theorem first_withReturns_of_mem (h : first config (s ++ after) = .token tok s.length)
    (hillegal : tok.isIllegal = false) (hnewline : '\n' ∈ s) :
    tok.kind = .string ∧ ∃ m, first config (withReturns (s ++ after)) =
      .token (.illegal .unterminatedString) m := by
  have hspells := spells_of_first h
  have hsound := first_sound config (s ++ after)
  rw [h] at hsound
  have hstring : tok.kind = .string := by
    by_contra hstring
    exact newline_notMem_of_spells hspells hsound hillegal hstring hnewline
  refine ⟨hstring, ?_⟩
  cases tok with
  | string value =>
      obtain ⟨pieces, -, rfl, -⟩ := hspells
      have hscan : StringLiteral.scan config.maxStringLength
          (StringLiteral.spell pieces ++ ['"'] ++ after) =
            (.string value, (StringLiteral.spell pieces ++ ['"']).length) := by
        obtain ⟨htok, hsize⟩ := Lexeme.token.inj h
        exact Prod.ext htok (Nat.succ.inj hsize)
      obtain ⟨m, hbroken⟩ := StringLiteral.scan_broken_withReturns hscan (by
        rw [List.take_left]
        simpa using hnewline)
      refine ⟨m + 1, ?_⟩
      rw [List.cons_append, withReturns_cons (by decide), first, hbroken]
      rfl
  | _ => cases hstring

end

/-- The token is a string of the source that goes on behind a newline. -/
def Continued (source : Text) (located : LocatedToken) : Prop :=
  located.token.kind = .string ∧
    ∃ slice, source.slice? located.span.start located.span.stop = some slice ∧ '\n' ∈ slice

/-- The second list has the tokens of the first one, up to the first string that goes on behind a
newline. In place of that string there is an error. -/
private inductive SameUpToBreak (source : Text) : List LocatedToken → List LocatedToken → Prop
  | nil : SameUpToBreak source [] []
  | token {located located' : LocatedToken} {rest rest' : List LocatedToken} :
      ¬Continued source located → located'.token = located.token →
      SameUpToBreak source rest rest' → SameUpToBreak source (located :: rest) (located' :: rest')
  | broken {located located' : LocatedToken} (rest rest' : List LocatedToken) :
      Continued source located → located'.token = .illegal .unterminatedString →
      SameUpToBreak source (located :: rest) (located' :: rest')

section
variable {source : Text} {tokens tokens' : List LocatedToken}

private theorem SameUpToBreak.map_token (h : SameUpToBreak source tokens tokens')
    (hnone : ∀ located ∈ tokens, ¬Continued source located) :
    tokens'.map (·.token) = tokens.map (·.token) := by
  induction h with
  | nil => rfl
  | token _ htok _ ih =>
      rw [List.map_cons, List.map_cons, htok, ih (List.forall_mem_cons.mp hnone).2]
  | broken _ _ hcontinued _ => exact absurd hcontinued (hnone _ List.mem_cons_self)

private theorem SameUpToBreak.illegal (h : SameUpToBreak source tokens tokens')
    (hsome : ∃ located ∈ tokens, Continued source located) :
    ∃ located' ∈ tokens', located'.token.isIllegal = true := by
  induction h with
  | nil => simp at hsome
  | @token located located' rest rest' hnot _ _ ih =>
      have hrest : ∃ located ∈ rest, Continued source located := by simpa [hnot] using hsome
      obtain ⟨found, hmem, hillegal⟩ := ih hrest
      exact ⟨found, List.mem_cons_of_mem _ hmem, hillegal⟩
  | broken _ _ _ htok => exact ⟨_, List.mem_cons_self, by rw [htok]; rfl⟩

end

private theorem sameUpToBreak_locate {config : LexerConfig} {file : FileId} {p : Position}
    {source before t : Text} (hsource : source = before ++ t)
    (hp : p = Position.start.advanceBy before)
    (hclean : ∀ located ∈ locate config file p t, located.token.isIllegal = false) (q : Position) :
    SameUpToBreak source (locate config file p t) (locate config file q (withReturns t)) := by
  induction p, t using locate.induct config generalizing before q with
  | case1 p t hfirst =>
      obtain rfl := first_eq_endOfText hfirst
      rw [locate_endOfText file p hfirst, withReturns_nil, locate_endOfText file q hfirst]
      refine .token ?_ rfl .nil
      rintro ⟨hkind, -⟩
      cases hkind
  | case2 p t n hfirst ih =>
      rw [locate_trivia file p hfirst] at hclean ⊢
      rw [locate_trivia_withReturns file q hfirst]
      have hsource' : source = (before ++ t.take n) ++ t.drop n := by
        rw [List.append_assoc, List.take_append_drop, hsource]
      have hp' : p.advanceBy (t.take n) = Position.start.advanceBy (before ++ t.take n) := by
        rw [hp, Position.advanceBy_append]
      exact ih hsource' hp' hclean _
  | case3 p t tok n hfirst ih =>
      have hsplit := List.take_append_drop n t
      have hlength : (t.take n).length = n := List.length_take_of_le (first_eq_token hfirst).2.1
      have hsource' : source = (before ++ t.take n) ++ t.drop n := by
        rw [List.append_assoc, hsplit, hsource]
      have hp' : p.advanceBy (t.take n) = Position.start.advanceBy (before ++ t.take n) := by
        rw [hp, Position.advanceBy_append]
      have hslice : source.slice? p.offset (p.advanceBy (t.take n)).offset = some (t.take n) := by
        rw [Position.advanceBy_offset, hp, Position.offset_advanceBy_start, hsource',
          List.append_assoc]
        exact slice?_append before (t.take n) (t.drop n)
      have hfirst' : first config (t.take n ++ t.drop n) = .token tok (t.take n).length := by
        rw [hsplit, hlength, hfirst]
      rw [locate_token file p hfirst] at hclean ⊢
      obtain ⟨hillegal, hrest⟩ := List.forall_mem_cons.mp hclean
      by_cases hnewline : '\n' ∈ t.take n
      · obtain ⟨hstring, m, hbroken⟩ := first_withReturns_of_mem hfirst' hillegal hnewline
        rw [hsplit] at hbroken
        rw [locate_token file q hbroken]
        exact .broken _ _ ⟨hstring, t.take n, hslice, hnewline⟩ rfl
      · have hsame := first_withReturns_of_notMem hfirst' hillegal hnewline
        have hreturns := withReturns_append (t.take n) (t.drop n)
        rw [hsplit, withReturns_of_notMem hnewline] at hreturns
        rw [hsplit, hreturns] at hsame
        rw [hreturns, locate_token file q hsame, List.take_left, List.drop_left]
        refine .token ?_ rfl (ih hsource' hp' hrest _)
        rintro ⟨-, slice, hcut, hmem⟩
        obtain rfl := Option.some.inj (hslice.symm.trans hcut)
        exact hnewline hmem

/-- A source without errors has the same tokens with a carriage return in front of every newline,
unless one of its strings goes on behind a newline. Then there is an error. -/
theorem scan_withReturns (config : LexerConfig) (file : FileId) {source : Text}
    (hclean : (scan source config file).1.hasErrors = false) :
    ((∃ located ∈ (scan source config file).1.toList, Continued source located) ↔
        (scan (withReturns source) config file).1.hasErrors = true) ∧
      ((∀ located ∈ (scan source config file).1.toList, ¬Continued source located) →
        (scan (withReturns source) config file).1.tokens = (scan source config file).1.tokens) := by
  have hnone : ∀ located ∈ locate config file Position.start source,
      located.token.isIllegal = false := by
    rw [← toList_scan]
    simpa [TokenStream.hasErrors, TokenStream.tokens] using hclean
  have hsource : source = [] ++ source := rfl
  have hsame : SameUpToBreak source (locate config file Position.start source)
      (locate config file Position.start (withReturns source)) :=
    sameUpToBreak_locate hsource rfl hnone Position.start
  rw [← toList_scan, ← toList_scan] at hsame
  have htokens (h : ∀ located ∈ (scan source config file).1.toList, ¬Continued source located) :
      (scan (withReturns source) config file).1.tokens = (scan source config file).1.tokens :=
    hsame.map_token h
  refine ⟨⟨?_, ?_⟩, htokens⟩
  · intro hsome
    obtain ⟨located, hmem, hillegal⟩ := hsame.illegal hsome
    rw [TokenStream.hasErrors, List.any_eq_true]
    exact ⟨located.token, List.mem_map_of_mem hmem, hillegal⟩
  · intro herrors
    by_contra hsome
    simp only [not_exists, not_and] at hsome
    rw [TokenStream.hasErrors, htokens hsome, ← TokenStream.hasErrors, hclean] at herrors
    cases herrors

/-- The carriage return is taken for the escaped character. The newline behind it then breaks the
string off, and the closing quote opens another one. -/
theorem scan_withReturns_of_escaped_newline :
    '\r' ∉ "\"\\\n\"".toList ∧
      (scan "\"\\\n\"".toList {}).1.tokens = [.string ['\n'], .endOfInput] ∧
      (scan (withReturns "\"\\\n\"".toList) {}).1.tokens =
        [.illegal .unterminatedString, .illegal .endOfInputInString, .endOfInput] := by
  refine ⟨by decide, ?_, ?_⟩
  · have hstring : first {} "\"\\\n\"".toList = .token (.string ['\n']) 4 := by decide
    rw [TokenStream.tokens, toList_scan, locate_token 0 _ hstring]
    change _ :: List.map _ (locate _ _ _ []) = _
    rw [locate_endOfText 0 _ rfl]
    rfl
  · have hbroken : first {} "\"\\\r\n\"".toList = .token (.illegal .unterminatedString) 4 := by
      decide
    have hopen : first {} "\"".toList = .token (.illegal .endOfInputInString) 1 := by decide
    rw [TokenStream.tokens, toList_scan]
    change List.map _ (locate _ _ _ "\"\\\r\n\"".toList) = _
    rw [locate_token 0 _ hbroken]
    change _ :: List.map _ (locate _ _ _ "\"".toList) = _
    rw [locate_token 0 _ hopen]
    change _ :: _ :: List.map _ (locate _ _ _ []) = _
    rw [locate_endOfText 0 _ rfl]
    rfl

/-- Behind a line comment the carriage return is part of the comment. -/
theorem scan_withReturns_of_lineComment :
    (scan "x--y\nz".toList { lineComments := true }).1.hasErrors = false ∧
      (scan (withReturns "x--y\nz".toList) { lineComments := true }).1.tokens =
        [.identifier ['x'], .identifier ['z'], .endOfInput] := by
  have hfront : first { lineComments := true } "x--y\nz".toList = .token (.identifier ['x']) 1 := by
    decide
  have hcomment : first { lineComments := true } "--y\nz".toList = .trivia 3 := by decide
  have hbreak : first { lineComments := true } "\nz".toList = .trivia 1 := by decide
  have hback : first { lineComments := true } "z".toList = .token (.identifier ['z']) 1 := by decide
  have htokens : (scan "x--y\nz".toList { lineComments := true }).1.toList =
      [⟨.identifier ['x'], ⟨0, 1, 1, 1, 0⟩⟩, ⟨.identifier ['z'], ⟨5, 6, 2, 1, 0⟩⟩,
        ⟨.endOfInput, ⟨6, 6, 2, 2, 0⟩⟩] := by
    rw [toList_scan, locate_token 0 _ hfront]
    change _ :: locate _ _ _ "--y\nz".toList = _
    rw [locate_trivia 0 _ hcomment]
    change _ :: locate _ _ _ "\nz".toList = _
    rw [locate_trivia 0 _ hbreak]
    change _ :: locate _ _ _ "z".toList = _
    rw [locate_token 0 _ hback]
    change _ :: _ :: locate _ _ _ [] = _
    rw [locate_endOfText 0 _ rfl]
    rfl
  have hclean : (scan "x--y\nz".toList { lineComments := true }).1.hasErrors = false := by
    rw [TokenStream.hasErrors, TokenStream.tokens, htokens]
    rfl
  refine ⟨hclean, ?_⟩
  rw [(scan_withReturns { lineComments := true } 0 hclean).2, TokenStream.tokens, htokens]
  · rfl
  · intro located hmem hcontinued
    rw [htokens] at hmem
    have hkind := hcontinued.1
    simp only [List.mem_cons, List.not_mem_nil, or_false] at hmem
    rcases hmem with rfl | rfl | rfl <;> cases hkind

end CoolLexer
