import CoolLexer.Proofs.Cursor.Motion
import CoolLexer.Proofs.Lexer.Relocation

/-!
# Starting a scan behind a token

The lexer has no memory: what it reads behind a token is what it reads from the text behind the
token alone. Only the spans differ, as the text then starts at the beginning of a source.
-/

namespace CoolLexer

/-- Behind the diagnostics of the first tokens stand those of the others. -/
theorem drop_filterMap_diagnostic? (tokens : List LocatedToken) (n : Nat) :
    (tokens.filterMap LocatedToken.diagnostic?).drop
        ((tokens.take n).countP (·.token.isIllegal)) =
      (tokens.drop n).filterMap LocatedToken.diagnostic? := by
  have hsplit : tokens.filterMap LocatedToken.diagnostic? =
      (tokens.take n).filterMap LocatedToken.diagnostic? ++
        (tokens.drop n).filterMap LocatedToken.diagnostic? := by
    rw [← List.filterMap_append, List.take_append_drop]
  rw [hsplit, ← length_filterMap_diagnostic?, List.drop_left]

namespace Lexer

/-- The diagnostics of a text are moved with its tokens. -/
theorem map_relocate_log (config : LexerConfig) (file : FileId) (origin : Position) (t : Text) :
    (scan t config file).2.toList.map (Diagnostic.relocate origin) =
      (locate config file origin t).filterMap LocatedToken.diagnostic? := by
  rw [locate_relocate, List.filterMap_map, toList_log_scan, List.map_filterMap, toList_scan]
  apply List.filterMap_congr
  intro located _
  exact (located.diagnostic?_relocate origin).symm

/-- In the text `before ++ after` at `p`, the token ends with `before`, and the tokens `rest` that
come behind it are read from `after`. Behind the end token it is read once more. -/
structure ResumesAt (config : LexerConfig) (file : FileId) (p : Position) (before after : Text)
    (located : LocatedToken) (rest : List LocatedToken) : Prop where
  stop : located.span.stop = p.offset + before.byteLength
  last : located.token = .endOfInput → rest = []
  ahead : locate config file (p.advanceBy before) after =
    if located.token = .endOfInput then [located] else rest

section
variable {config : LexerConfig} {file : FileId} {p : Position}

private theorem ResumesAt.prepend {s before after : Text} {located : LocatedToken}
    {rest : List LocatedToken}
    (h : ResumesAt config file (p.advanceBy s) before after located rest) :
    ResumesAt config file p (s ++ before) after located rest where
  stop := by
    have hstop := h.stop
    rw [Position.advanceBy_offset] at hstop
    rw [Text.byteLength_append]
    omega
  last := h.last
  ahead := by
    rw [Position.advanceBy_append]
    exact h.ahead

private theorem resumesAt_end (p : Position) :
    ResumesAt config file p [] [] ⟨.endOfInput, Span.between file p p⟩ [] where
  stop := rfl
  last _ := rfl
  ahead := locate_endOfText file p rfl

private theorem resumesAt_token {t : Text} {tok : Token} {n : Nat}
    (h : Lexeme.first config t = .token tok n) :
    ResumesAt config file p (t.take n) (t.drop n)
      ⟨tok, Span.between file p (p.advanceBy (t.take n))⟩
      (locate config file (p.advanceBy (t.take n)) (t.drop n)) where
  stop := Position.advanceBy_offset p (t.take n)
  last hend := absurd hend (Lexeme.first_eq_token h).2.2
  ahead := (if_neg (Lexeme.first_eq_token h).2.2).symm

/-- Every token of a text is one behind which reading can start. -/
private theorem exists_resumesAt (t : Text) {k : Nat} {located : LocatedToken}
    (h : (locate config file p t)[k]? = some located) :
    ∃ before after, t = before ++ after ∧
      ResumesAt config file p before after located ((locate config file p t).drop (k + 1)) := by
  induction p, t using locate.induct config generalizing k with
  | case1 p t hfirst =>
      obtain rfl := Lexeme.first_eq_endOfText hfirst
      rw [locate_endOfText file p hfirst] at h ⊢
      cases k with
      | zero =>
          obtain rfl := Option.some.inj h
          exact ⟨[], [], rfl, resumesAt_end p⟩
      | succ k => simp at h
  | case2 p t n hfirst ih =>
      rw [locate_trivia file p hfirst] at h ⊢
      obtain ⟨before, after, hsplit, hresumes⟩ := ih h
      refine ⟨t.take n ++ before, after, ?_, hresumes.prepend⟩
      rw [List.append_assoc, ← hsplit, List.take_append_drop]
  | case3 p t tok n hfirst ih =>
      rw [locate_token file p hfirst] at h ⊢
      cases k with
      | zero =>
          obtain rfl := Option.some.inj h
          exact ⟨t.take n, t.drop n, (List.take_append_drop n t).symm, resumesAt_token hfirst⟩
      | succ k =>
          rw [List.getElem?_cons_succ] at h
          obtain ⟨before, after, hsplit, hresumes⟩ := ih h
          refine ⟨t.take n ++ before, after, ?_, hresumes.prepend⟩
          rw [List.append_assoc, ← hsplit, List.take_append_drop]

end

end Lexer

/-- Nowhere in a source that is not too long do lines and columns get beyond 32 bits. -/
private theorem fits_of_prefix {source front : Text} (hsize : source.length < 2 ^ 32 - 1)
    (h : front <+: source) : (Position.start.advanceBy front).Fits :=
  Position.fits_advanceBy_start (Nat.lt_of_le_of_lt h.length_le hsize)

open Lexer

/-- The text behind a token scans as the tokens behind it, and reports what is reported behind it,
with all spans moved to the place where the token ends. Behind the end token there is no text, whose
scan is the end token once more. No counter of either scan gets beyond 32 bits. -/
theorem scan_restarts (config : LexerConfig) (file : FileId) (source : Text)
    (hsize : source.length < 2 ^ 32 - 1) {k : Nat} {located : LocatedToken}
    (h : (scan source config file).1.toList[k]? = some located) :
    ∃ before after, source = before ++ after ∧ before.byteLength = located.span.stop ∧
      (∀ front, front <+: source ∨ front <+: after → (Position.start.advanceBy front).Fits) ∧
      (scan after config file).1.toList.map
          (LocatedToken.relocate (Position.start.advanceBy before)) =
        (if located.token = .endOfInput then [located]
          else (scan source config file).1.toList.drop (k + 1)) ∧
      (scan after config file).2.toList.map
          (Diagnostic.relocate (Position.start.advanceBy before)) =
        (scan source config file).2.toList.drop
          (((scan source config file).1.toList.take (k + 1)).countP (·.token.isIllegal)) := by
  rw [toList_scan] at h
  obtain ⟨before, after, hsplit, hresumes⟩ := exists_resumesAt source h
  rw [← toList_scan] at hresumes
  refine ⟨before, after, hsplit, ?_, ?_, ?_, ?_⟩
  · rw [hresumes.stop]
    exact (Nat.zero_add _).symm
  · have hafter : after.length < 2 ^ 32 - 1 := by
      rw [hsplit, List.length_append] at hsize
      omega
    rintro front (hfront | hfront)
    · exact fits_of_prefix hsize hfront
    · exact fits_of_prefix hafter hfront
  · rw [toList_scan after, ← locate_relocate]
    exact hresumes.ahead
  · rw [map_relocate_log, hresumes.ahead, toList_log_scan source, drop_filterMap_diagnostic?]
    by_cases hend : located.token = .endOfInput
    · -- The end token comes once more, but nothing is reported for it.
      rw [if_pos hend, hresumes.last hend]
      simp [LocatedToken.diagnostic?, Token.error?, hend]
    · rw [if_neg hend]

/-- No token comes behind the end token, but the empty text behind it has a token. -/
theorem scan_behind_end_ne_drop :
    (scan [] {}).1.toList[0]? = some ⟨.endOfInput, ⟨0, 0, 1, 1, 0⟩⟩ ∧
      Text.slice? [] 0 0 = some [] ∧
      (scan [] {}).1.toList.map (LocatedToken.relocate Position.start) ≠
        (scan [] {}).1.toList.drop 1 := by
  rw [toList_scan, locate_endOfText 0 Position.start rfl]
  exact ⟨rfl, rfl, by simp⟩

private theorem toList_broken_string : (scan "x \"é\n*)".toList {}).1.toList =
    [⟨.identifier ['x'], ⟨0, 1, 1, 1, 0⟩⟩, ⟨.illegal .unterminatedString, ⟨2, 6, 1, 3, 0⟩⟩,
      ⟨.illegal .unmatchedCommentClose, ⟨6, 8, 2, 1, 0⟩⟩, ⟨.endOfInput, ⟨8, 8, 2, 3, 0⟩⟩] := by
  have hname : Lexeme.first {} "x \"é\n*)".toList = .token (.identifier ['x']) 1 := by decide
  have hblank : Lexeme.first {} " \"é\n*)".toList = .trivia 1 := by decide
  have hstring : Lexeme.first {} "\"é\n*)".toList = .token (.illegal .unterminatedString) 3 := by
    decide
  have hclose : Lexeme.first {} "*)".toList = .token (.illegal .unmatchedCommentClose) 2 := by
    decide
  rw [toList_scan, locate_token 0 _ hname]
  change _ :: locate _ _ _ " \"é\n*)".toList = _
  rw [locate_trivia 0 _ hblank]
  change _ :: locate _ _ _ "\"é\n*)".toList = _
  rw [locate_token 0 _ hstring]
  change _ :: _ :: locate _ _ _ "*)".toList = _
  rw [locate_token 0 _ hclose]
  change _ :: _ :: _ :: locate _ _ _ [] = _
  rw [locate_endOfText 0 _ rfl]
  rfl

/-- Behind a string that its line breaks off, reading starts on the next line. -/
theorem scan_restarts_behind_broken_string :
    "x \"é\n*)".toList.length < 2 ^ 32 - 1 ∧
      (scan "x \"é\n*)".toList {}).1.toList[1]? =
        some ⟨.illegal .unterminatedString, ⟨2, 6, 1, 3, 0⟩⟩ ∧
      (scan "*)".toList {}).1.toList.map (LocatedToken.relocate ⟨6, 2, 1⟩) =
        [⟨.illegal .unmatchedCommentClose, ⟨6, 8, 2, 1, 0⟩⟩, ⟨.endOfInput, ⟨8, 8, 2, 3, 0⟩⟩] ∧
      (scan "*)".toList {}).2.toList.map (Diagnostic.relocate ⟨6, 2, 1⟩) =
        (scan "x \"é\n*)".toList {}).2.toList.drop 1 := by
  have hmem : (scan "x \"é\n*)".toList {}).1.toList[1]? =
      some ⟨.illegal .unterminatedString, ⟨2, 6, 1, 3, 0⟩⟩ := by
    rw [toList_broken_string]
    rfl
  have hsize : "x \"é\n*)".toList.length < 2 ^ 32 - 1 := by decide
  obtain ⟨before, after, hsplit, hlength, -, htokens, hlog⟩ := scan_restarts {} 0 _ hsize hmem
  have hbefore := Text.slice?_append [] before after
  have hafter := Text.slice?_append_end before after
  rw [List.nil_append, ← hsplit, Text.byteLength_nil, Nat.zero_add, hlength] at hbefore
  rw [← hsplit, hlength] at hafter
  obtain rfl : "x \"é\n".toList = before := Option.some.inj hbefore
  obtain rfl : "*)".toList = after := Option.some.inj hafter
  rw [toList_broken_string] at htokens hlog
  exact ⟨hsize, hmem, htokens, hlog⟩

end CoolLexer
