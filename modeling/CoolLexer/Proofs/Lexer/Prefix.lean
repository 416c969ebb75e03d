import CoolLexer.Proofs.Lexer.Located
import CoolLexer.Proofs.Lexer.Lookahead

/-!
# Tokens in front of a cut

A token that ends before the last character of a text is there whatever follows the text. So the
tokens that end before a cut of a source are read from the part in front of the cut alone.
-/

namespace CoolLexer

namespace Lexer

section
variable {config : LexerConfig} {file : FileId} {p : Position}

private theorem offset_le_stop {t : Text} :
    ∀ located ∈ locate config file p t, p.offset ≤ located.span.stop := by
  induction p, t using locate.induct config with
  | case1 p t hfirst =>
      rw [locate_endOfText file p hfirst]
      simp [Span.between]
  | case2 p t n hfirst ih =>
      rw [locate_trivia file p hfirst]
      intro located hmem
      have hle := ih located hmem
      rw [Position.advanceBy_offset] at hle
      omega
  | case3 p t tok n hfirst ih =>
      have hoffset := Position.advanceBy_offset p (t.take n)
      rw [locate_token file p hfirst]
      intro located hmem
      rcases List.mem_cons.mp hmem with rfl | hmem
      · simp only [Span.between]
        omega
      · have hle := ih located hmem
        omega

/-- Where the first lexeme reaches the cut, every token does. -/
private theorem cut_le_stop {t q : Text} (h : t.length ≤ (Lexeme.first config (t ++ q)).size) :
    ∀ located ∈ locate config file p (t ++ q), p.offset + t.byteLength ≤ located.span.stop := by
  have hreach {n : Nat} (hn : t.length ≤ n) :
      p.offset + t.byteLength ≤ (p.advanceBy ((t ++ q).take n)).offset := by
    rw [Position.advanceBy_offset, List.take_append, List.take_of_length_le hn,
      Text.byteLength_append]
    omega
  cases hfirst : Lexeme.first config (t ++ q) with
  | endOfText =>
      rw [hfirst] at h
      obtain rfl : t = [] := List.length_eq_zero_iff.mp (Nat.le_zero.mp h)
      exact offset_le_stop
  | trivia n =>
      rw [hfirst] at h
      rw [locate_trivia file p hfirst]
      intro located hmem
      exact Nat.le_trans (hreach h) (offset_le_stop located hmem)
  | token tok n =>
      rw [hfirst] at h
      rw [locate_token file p hfirst]
      intro located hmem
      rcases List.mem_cons.mp hmem with rfl | hmem
      · exact hreach h
      · exact Nat.le_trans (hreach h) (offset_le_stop located hmem)

private theorem filter_eq_nil {t q : Text} (h : t.length ≤ (Lexeme.first config (t ++ q)).size) :
    (locate config file p (t ++ q)).filter (·.span.stop < p.offset + t.byteLength) = [] := by
  apply List.filter_eq_nil_iff.mpr
  intro located hmem
  have hle := cut_le_stop h located hmem
  simpa using hle

/-- Where the first lexeme reaches the cut, no token ends before it, whatever comes behind it. -/
private theorem filter_append_of_le {t : Text} (h : t.length ≤ (Lexeme.first config t).size)
    (q : Text) :
    (locate config file p (t ++ q)).filter (·.span.stop < p.offset + t.byteLength) =
      (locate config file p t).filter (·.span.stop < p.offset + t.byteLength) := by
  have hnil : (locate config file p (t ++ [])).filter
      (·.span.stop < p.offset + t.byteLength) = [] := filter_eq_nil (by rwa [List.append_nil])
  rw [List.append_nil] at hnil
  rw [hnil]
  apply filter_eq_nil
  apply Nat.le_of_not_lt
  intro hlt
  have hfirst := Lexeme.first_append_congr q [] hlt
  rw [List.append_nil] at hfirst
  rw [hfirst] at h
  omega

private theorem first_append_of_lt {t : Text} (h : (Lexeme.first config t).size < t.length)
    (q : Text) : Lexeme.first config (t ++ q) = Lexeme.first config t := by
  have hfirst := Lexeme.first_append_congr (t := t) [] q (by rwa [List.append_nil])
  rwa [List.append_nil] at hfirst

private theorem cut_eq (t : Text) (n : Nat) :
    p.offset + t.byteLength = (p.advanceBy (t.take n)).offset + Text.byteLength (t.drop n) := by
  have hbytes := Text.byteLength_append (t.take n) (t.drop n)
  rw [List.take_append_drop] at hbytes
  rw [Position.advanceBy_offset, hbytes, Nat.add_assoc]

/-- The text behind a cut makes no difference to the tokens that end before the cut. -/
private theorem filter_locate_append (t q : Text) :
    (locate config file p (t ++ q)).filter (·.span.stop < p.offset + t.byteLength) =
      (locate config file p t).filter (·.span.stop < p.offset + t.byteLength) := by
  induction p, t using locate.induct config with
  | case1 p t hfirst =>
      obtain rfl := Lexeme.first_eq_endOfText hfirst
      exact filter_append_of_le (Nat.zero_le _) q
  | case2 p t n hfirst ih =>
      by_cases hlt : n < t.length
      · have hfirst' : Lexeme.first config (t ++ q) = .trivia n := by
          rw [first_append_of_lt (by rwa [hfirst]), hfirst]
        rw [locate_trivia file p hfirst, locate_trivia file p hfirst',
          List.take_append_of_le_length (Nat.le_of_lt hlt),
          List.drop_append_of_le_length (Nat.le_of_lt hlt), cut_eq t n]
        exact ih
      · apply filter_append_of_le
        rw [hfirst]
        exact Nat.le_of_not_lt hlt
  | case3 p t tok n hfirst ih =>
      by_cases hlt : n < t.length
      · have hfirst' : Lexeme.first config (t ++ q) = .token tok n := by
          rw [first_append_of_lt (by rwa [hfirst]), hfirst]
        rw [locate_token file p hfirst, locate_token file p hfirst',
          List.take_append_of_le_length (Nat.le_of_lt hlt),
          List.drop_append_of_le_length (Nat.le_of_lt hlt), cut_eq t n, List.filter_cons,
          List.filter_cons, ih]
      · apply filter_append_of_le
        rw [hfirst]
        exact Nat.le_of_not_lt hlt

/-- The tokens that end before a byte come before the others. -/
private theorem filter_stop_prefix (t : Text) (bound : Nat) :
    (locate config file p t).filter (·.span.stop < bound) <+: locate config file p t := by
  induction p, t using locate.induct config with
  | case1 p t hfirst =>
      rw [locate_endOfText file p hfirst, List.filter_cons]
      split
      · exact List.prefix_rfl
      · exact List.nil_prefix
  | case2 p t n hfirst ih =>
      rw [locate_trivia file p hfirst]
      exact ih
  | case3 p t tok n hfirst ih =>
      rw [locate_token file p hfirst, List.filter_cons]
      split
      · exact List.cons_prefix_cons.mpr ⟨rfl, ih⟩
      · next hge =>
          -- No later token ends before the byte either.
          have hnil : (locate config file (p.advanceBy (t.take n)) (t.drop n)).filter
              (·.span.stop < bound) = [] := by
            apply List.filter_eq_nil_iff.mpr
            intro located hmem
            have hle := offset_le_stop located hmem
            have hge : ¬(p.advanceBy (t.take n)).offset < bound :=
              fun hlt => hge (decide_eq_true hlt)
            simp only [decide_eq_true_eq]
            omega
          rw [hnil]
          exact List.nil_prefix

end

end Lexer

open Lexer

/-- The tokens of a source that end before a cut are the first tokens of the part in front of the
cut, with the same values and spans, and are the same whatever stands behind the cut: one character
behind a token is all that the token depends on. -/
theorem scan_append_stable (config : LexerConfig) (file : FileId) (front back : Text) :
    (scan (front ++ back) config file).1.toList.filter (·.span.stop < front.byteLength) <+:
        (scan front config file).1.toList ∧
      ∀ back', (scan (front ++ back) config file).1.toList.filter
          (·.span.stop < front.byteLength) =
        (scan (front ++ back') config file).1.toList.filter (·.span.stop < front.byteLength) := by
  have hstable (back : Text) :
      (scan (front ++ back) config file).1.toList.filter (·.span.stop < front.byteLength) =
        (scan front config file).1.toList.filter (·.span.stop < front.byteLength) := by
    rw [toList_scan, toList_scan, ← Nat.zero_add front.byteLength]
    exact filter_locate_append (p := Position.start) front back
  constructor
  · rw [hstable, toList_scan]
    exact filter_stop_prefix front front.byteLength
  · intro back'
    rw [hstable, hstable]

end CoolLexer
