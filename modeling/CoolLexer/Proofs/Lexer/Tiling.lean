import CoolLexer.Proofs.Lexer.Located
import CoolLexer.Proofs.Text.Slice

/-!
# A scan tiles its source

The spans of a scan and the gaps between them cover the source from its first byte to its last. What
lies in a gap is trivia, and what lies under a span spells its token, so that a scan loses nothing.
-/

namespace CoolLexer

/-- A text that starts at byte `offset`, cut into trivia and the texts of tokens. -/
inductive Tiling (config : LexerConfig) : Nat → Text → List LocatedToken → Prop
  | finish {offset : Nat} {gap : Text} {last : LocatedToken} :
      Trivia config gap [] → last.token = .endOfInput →
      last.span.start = offset + gap.byteLength → last.span.stop = last.span.start →
      Tiling config offset gap [last]
  | token {offset : Nat} {gap slice after : Text} {located : LocatedToken}
      {rest : List LocatedToken} :
      Trivia config gap (slice ++ after) → slice ≠ [] → located.token ≠ .endOfInput →
      located.token.Spells slice after → located.span.start = offset + gap.byteLength →
      located.span.stop = located.span.start + slice.byteLength →
      Tiling config located.span.stop after rest →
      Tiling config offset (gap ++ (slice ++ after)) (located :: rest)

/-- The text `piece` stands in `source` between two bytes, and `after` from the second one on. -/
def Text.Stands (source : Text) (start stop : Nat) (piece after : Text) : Prop :=
  source.slice? start stop = some piece ∧ source.slice? stop source.byteLength = some after

/-- The spans of `tokens` and the gaps between them cover `source`. -/
structure Tiles (config : LexerConfig) (source : Text) (tokens : List LocatedToken) : Prop where
  ordered : (tokens.flatMap fun located => [located.span.start, located.span.stop]).Pairwise (· ≤ ·)
  gaps : ∀ bounds ∈ (0 :: tokens.map (·.span.stop)).zip (tokens.map (·.span.start)),
    ∃ gap after, source.Stands bounds.1 bounds.2 gap after ∧ Trivia config gap after
  spelled : ∀ located ∈ tokens, ∃ slice after,
    source.Stands located.span.start located.span.stop slice after ∧
      located.token.Spells slice after
  nonempty : ∀ located ∈ tokens, located.token ≠ .endOfInput →
    located.span.start < located.span.stop
  atEnd : ∀ located ∈ tokens, located.token = .endOfInput →
    located.span.start = source.byteLength ∧ located.span.stop = source.byteLength
  last : tokens.getLast?.map (·.token) = some .endOfInput

theorem Text.stands_append (before piece after : Text) :
    (before ++ (piece ++ after)).Stands before.byteLength
      (before ++ piece).byteLength piece after := by
  have hafter := slice?_append_end (before ++ piece) after
  rw [List.append_assoc] at hafter
  exact ⟨by rw [byteLength_append, slice?_append], hafter⟩

namespace Tiling

variable {config : LexerConfig} {offset : Nat} {text : Text} {tokens : List LocatedToken}

private theorem trivia_append {s : Text} (hs : Trivia config s text)
    (h : Tiling config (offset + s.byteLength) text tokens) :
    Tiling config offset (s ++ text) tokens := by
  cases h with
  | finish hgap hend hstart hstop =>
      have hs' : Trivia config s (text ++ []) := by rwa [List.append_nil]
      refine .finish (hs'.append hgap) hend ?_ hstop
      rw [hstart, Text.byteLength_append, Nat.add_assoc]
  | token hgap hslice htok hspells hstart hstop hrest =>
      rw [← List.append_assoc]
      refine .token (hs.append hgap) hslice htok hspells ?_ hstop hrest
      rw [hstart, Text.byteLength_append, Nat.add_assoc]

/-- The tokens of a text tile it. -/
theorem locate (config : LexerConfig) (file : FileId) (p : Position) (t : Text) :
    Tiling config p.offset t (Lexer.locate config file p t) := by
  induction p, t using Lexer.locate.induct config with
  | case1 p t hfirst =>
      obtain rfl := Lexeme.first_eq_endOfText hfirst
      rw [Lexer.locate_endOfText file p hfirst]
      exact .finish (.nil []) rfl rfl rfl
  | case2 p t n hfirst ih =>
      have htakes := Lexeme.first_takes config t
      rw [hfirst] at htakes
      obtain ⟨s, after, rfl, rfl, htrivia⟩ := htakes
      rw [Lexer.locate_trivia file p hfirst]
      rw [List.take_left, List.drop_left] at ih ⊢
      apply trivia_append htrivia
      rwa [← Position.advanceBy_offset]
  | case3 p t tok n hfirst ih =>
      have htakes := Lexeme.first_takes config t
      rw [hfirst] at htakes
      obtain ⟨s, after, rfl, rfl, hspells⟩ := htakes
      obtain ⟨hpos, -, hend⟩ := Lexeme.first_eq_token hfirst
      rw [Lexer.locate_token file p hfirst]
      rw [List.take_left, List.drop_left] at ih ⊢
      exact .token (.nil _) (List.length_pos_iff.mp hpos) hend hspells rfl
        (Position.advanceBy_offset p s) ih

private theorem bounds (h : Tiling config offset text tokens) :
    (tokens.flatMap fun located => [located.span.start, located.span.stop]).Pairwise (· ≤ ·) ∧
      ∀ x ∈ tokens.flatMap fun located => [located.span.start, located.span.stop], offset ≤ x := by
  induction h with
  | finish _ _ hstart hstop =>
      simp [hstart, hstop]
  | @token offset gap slice after located rest _ _ _ _ hstart hstop _ ih =>
      obtain ⟨hsorted, hle⟩ := ih
      constructor
      · simp only [List.flatMap_cons, List.cons_append, List.nil_append, List.pairwise_cons]
        refine ⟨?_, hle, hsorted⟩
        intro x hx
        rcases List.mem_cons.mp hx with rfl | hx
        · omega
        · have := hle x hx
          omega
      · intro x hx
        simp only [List.flatMap_cons, List.cons_append, List.nil_append, List.mem_cons] at hx
        rcases hx with rfl | rfl | hx
        · omega
        · omega
        · have := hle x hx
          omega

section
variable {before source : Text}

private theorem gaps (h : Tiling config offset text tokens) (hsource : source = before ++ text)
    (hoffset : offset = before.byteLength) :
    ∀ bounds ∈ (offset :: tokens.map (·.span.stop)).zip (tokens.map (·.span.start)),
      ∃ gap after, source.Stands bounds.1 bounds.2 gap after ∧ Trivia config gap after := by
  induction h generalizing before with
  | @finish offset gap last hgap _ hstart _ =>
      intro bounds hbounds
      obtain rfl : bounds = (offset, last.span.start) := by simpa using hbounds
      refine ⟨gap, [], ?_, hgap⟩
      rw [hsource, hstart, hoffset, ← Text.byteLength_append]
      simpa using Text.stands_append before gap []
  | @token offset gap slice after located rest hgap _ _ _ hstart hstop _ ih =>
      intro bounds hbounds
      rcases List.mem_cons.mp hbounds with rfl | hbounds
      · refine ⟨gap, slice ++ after, ?_, hgap⟩
        dsimp only
        rw [hsource, hstart, hoffset, ← Text.byteLength_append]
        exact Text.stands_append before gap (slice ++ after)
      · have hsource' : source = (before ++ (gap ++ slice)) ++ after := by simp [hsource]
        have hoffset' : located.span.stop = (before ++ (gap ++ slice)).byteLength := by
          simp [hstop, hstart, hoffset, Nat.add_assoc]
        exact ih hsource' hoffset' bounds hbounds

private theorem spelled (h : Tiling config offset text tokens) (hsource : source = before ++ text)
    (hoffset : offset = before.byteLength) :
    ∀ located ∈ tokens, ∃ slice after,
      source.Stands located.span.start located.span.stop slice after ∧
        located.token.Spells slice after := by
  induction h generalizing before with
  | @finish offset gap last _ hend hstart hstop =>
      intro located hmem
      obtain rfl := List.mem_singleton.mp hmem
      refine ⟨[], [], ?_, ?_⟩
      · have hstands := Text.stands_append (before ++ gap) [] []
        rw [hstop, hstart, hsource, hoffset, ← Text.byteLength_append]
        simpa using hstands
      · rw [hend]
        exact ⟨rfl, rfl⟩
  | @token offset gap slice after first rest _ _ _ hspells hstart hstop _ ih =>
      have hsource' : source = (before ++ (gap ++ slice)) ++ after := by simp [hsource]
      have hoffset' : first.span.stop = (before ++ (gap ++ slice)).byteLength := by
        simp [hstop, hstart, hoffset, Nat.add_assoc]
      intro located hmem
      rcases List.mem_cons.mp hmem with rfl | hmem
      · refine ⟨slice, after, ?_, hspells⟩
        have hstands := Text.stands_append (before ++ gap) slice after
        rw [hoffset', hstart, hsource, hoffset, ← Text.byteLength_append]
        simpa using hstands
      · exact ih hsource' hoffset' located hmem

end

private theorem nonempty (h : Tiling config offset text tokens) :
    ∀ located ∈ tokens, located.token ≠ .endOfInput → located.span.start < located.span.stop := by
  induction h with
  | finish _ hend =>
      intro located hmem htok
      obtain rfl := List.mem_singleton.mp hmem
      exact absurd hend htok
  | token _ hslice _ _ _ hstop _ ih =>
      intro located hmem htok
      rcases List.mem_cons.mp hmem with rfl | hmem
      · have := Text.byteLength_pos hslice
        omega
      · exact ih located hmem htok

private theorem atEnd (h : Tiling config offset text tokens) :
    ∀ located ∈ tokens, located.token = .endOfInput →
      located.span.start = offset + text.byteLength ∧
        located.span.stop = offset + text.byteLength := by
  induction h with
  | finish _ _ hstart hstop =>
      intro located hmem _
      obtain rfl := List.mem_singleton.mp hmem
      exact ⟨hstart, hstop.trans hstart⟩
  | token _ _ htok _ hstart hstop _ ih =>
      intro located hmem hend
      rcases List.mem_cons.mp hmem with rfl | hmem
      · exact absurd hend htok
      · obtain ⟨hfirst, hlast⟩ := ih located hmem hend
        simp only [Text.byteLength_append]
        omega

private theorem getLast?_eq (h : Tiling config offset text tokens) :
    tokens.getLast?.map (·.token) = some .endOfInput := by
  induction h with
  | finish _ hend => simp [hend]
  | @token _ _ _ _ located rest _ _ _ _ _ _ _ ih =>
      cases rest with
      | nil => cases ih
      | cons next rest => rwa [List.getLast?_cons_cons]

end Tiling

/-- Whatever the options, a scan tiles its source: its spans and the trivia between them cover the
source, and every token is spelled by the text under its span. -/
theorem tokenize_tiles (source : Text) (config : LexerConfig) (file : FileId)
    (log : DiagnosticLog) :
    Tiles config source (Lexer.start source config file log).tokenize.1.toList := by
  have h : Tiling config 0 source (Lexer.start source config file log).tokenize.1.toList := by
    rw [Lexer.toList_tokenize]
    exact Tiling.locate config file Position.start source
  have hsource : source = [] ++ source := rfl
  exact {
    ordered := h.bounds.1
    gaps := h.gaps hsource rfl
    spelled := h.spelled hsource rfl
    nonempty := h.nonempty
    atEnd := by simpa using h.atEnd
    last := h.getLast?_eq }

end CoolLexer
