import CoolLexer.Proofs.Lexer.Tiling
import Mathlib.Data.List.Chain

/-!
# Where line comments make a difference

Line comments take effect where a token would start with `--`. Without them two dashes stand there,
one right behind the other, and nothing else gives such a pair: not `--` in a string or a block
comment, and not a dash behind `<-`. Up to the first pair both scans go the same way.
-/

namespace CoolLexer

/-- Two minus signs with nothing between them. -/
def LocatedToken.DashPair (first second : LocatedToken) : Prop :=
  first.token = .symbol .minus ∧ second.token = .symbol .minus ∧
    second.span.start = first.span.stop

/-- No two tokens in a row are a pair of dashes. -/
def DashesApart (tokens : List LocatedToken) : Prop :=
  tokens.IsChain fun first second => ¬ first.DashPair second

namespace Tiling

variable {config : LexerConfig} {offset : Nat} {text : Text} {first : LocatedToken}
  {rest : List LocatedToken}

private theorem offset_le_head (h : Tiling config offset text (first :: rest)) :
    offset ≤ first.span.start := by
  cases h with
  | finish _ _ hstart _ => exact hstart ▸ Nat.le_add_right _ _
  | token _ _ _ _ hstart _ _ => exact hstart ▸ Nat.le_add_right _ _

/-- A minus sign that starts with the text is its first character. -/
private theorem cons_of_minus (h : Tiling config offset text (first :: rest))
    (htok : first.token = .symbol .minus) (hstart : first.span.start = offset) :
    ∃ after, text = '-' :: after := by
  cases h with
  | finish _ hend _ _ =>
      rw [htok] at hend
      cases hend
  | @token _ gap slice after _ _ _ _ _ hspells hplace _ _ =>
      have hgap : gap = [] := by
        by_contra hne
        have := Text.byteLength_pos hne
        omega
      rw [htok] at hspells
      have hslice : slice = ['-'] := hspells
      exact ⟨after, by rw [hgap, hslice]; rfl⟩

end Tiling

namespace Lexeme

private theorem first_dash {config : LexerConfig} (hoff : config.lineComments = false)
    (rest : Text) : first config ('-' :: rest) = .token (.symbol .minus) 1 := by
  cases rest with
  | nil => rfl
  | cons c body =>
      by_cases hc : c = '-'
      · subst hc
        rw [first, hoff]
        rfl
      · rw [first]
        · rfl
        all_goals simp [hc]

/-- Only at `--` does the first lexeme depend on line comments. -/
private theorem first_withLineComments (config : LexerConfig) {t : Text}
    (h : ∀ body, t ≠ '-' :: '-' :: body) (enabled : Bool) :
    first (config.withLineComments enabled) t = first config t := by
  fun_cases first config t with
  | case3 body | case4 body => exact absurd rfl (h body)
  | case9 c rest => rw [first] <;> assumption
  | _ => rfl

end Lexeme

namespace Lexer

open Lexeme

section
variable {config : LexerConfig} (file : FileId) (p : Position) (hoff : config.lineComments = false)
include hoff

/-- Without line comments two dashes ahead are a pair. -/
private theorem not_dashesApart_dashes (body : Text) :
    ¬ DashesApart (locate config file p ('-' :: '-' :: body)) := by
  have hsecond := locate_token file (p.advance '-') (first_dash hoff body)
  rw [locate_token file p (first_dash hoff ('-' :: body))]
  change ¬ DashesApart (_ :: locate config file (p.advance '-') ('-' :: body))
  rw [hsecond, DashesApart, List.isChain_cons_cons]
  intro h
  exact h.1 ⟨rfl, rfl, rfl⟩

/-- With line comments no token starts at two dashes ahead. -/
private theorem locate_dashes_ne {config' : LexerConfig} (hon : config'.lineComments = true)
    (body : Text) :
    locate config file p ('-' :: '-' :: body) ≠ locate config' file p ('-' :: '-' :: body) := by
  have hcomment : first config' ('-' :: '-' :: body) =
      .trivia (Comment.lineLength body + 2) := if_pos hon
  have htiling := Tiling.locate config' file
    (p.advanceBy (('-' :: '-' :: body).take (Comment.lineLength body + 2)))
    (('-' :: '-' :: body).drop (Comment.lineLength body + 2))
  rw [← locate_trivia file p hcomment] at htiling
  intro heq
  rw [← heq, locate_token file p (first_dash hoff ('-' :: body))] at htiling
  have hle : (p.advanceBy (('-' :: '-' :: body).take (Comment.lineLength body + 2))).offset ≤
      p.offset := htiling.offset_le_head
  have hpos : 0 < Text.byteLength (('-' :: '-' :: body).take (Comment.lineLength body + 2)) :=
    Text.byteLength_pos (List.cons_ne_nil _ _)
  rw [Position.advanceBy_offset] at hle
  omega

end

/-- A token that is not the first of two dashes ahead starts no pair. -/
private theorem dashesApart_cons_iff {config : LexerConfig} (file : FileId) (p : Position)
    {t : Text} {tok : Token} {n : Nat} (hfirst : first config t = .token tok n)
    (h : ∀ body, t ≠ '-' :: '-' :: body) :
    DashesApart (⟨tok, Span.between file p (p.advanceBy (t.take n))⟩ ::
        locate config file (p.advanceBy (t.take n)) (t.drop n)) ↔
      DashesApart (locate config file (p.advanceBy (t.take n)) (t.drop n)) := by
  rw [DashesApart, List.isChain_cons]
  apply and_iff_right
  intro second hsecond ⟨htok, hminus, hstart⟩
  obtain rfl : tok = .symbol .minus := htok
  have htakes := first_takes config t
  rw [hfirst] at htakes
  obtain ⟨s, after, rfl, rfl, hspells⟩ := htakes
  obtain rfl : s = ['-'] := hspells
  obtain ⟨rest, hrest⟩ : ∃ rest, locate config file (p.advanceBy ['-']) after = second :: rest :=
    List.head?_eq_some_iff.mp hsecond
  have htiling := Tiling.locate config file (p.advanceBy ['-']) after
  rw [hrest] at htiling
  obtain ⟨body, rfl⟩ := htiling.cons_of_minus hminus hstart
  exact h body rfl

private theorem locate_withLineComments_eq_iff (config : LexerConfig) (file : FileId)
    (p : Position) (t : Text) :
    locate (config.withLineComments false) file p t =
        locate (config.withLineComments true) file p t ↔
      DashesApart (locate (config.withLineComments false) file p t) := by
  have hsame {t : Text} {lexeme : Lexeme} (h : ∀ body, t ≠ '-' :: '-' :: body)
      (hfirst : first (config.withLineComments false) t = lexeme) :
      first (config.withLineComments true) t = lexeme := by
    rw [← hfirst, first_withLineComments config h true, first_withLineComments config h false]
  induction p, t using locate.induct (config.withLineComments false) with
  | case1 p t hfirst =>
      obtain rfl := first_eq_endOfText hfirst
      rw [locate_endOfText file p rfl, locate_endOfText file p rfl]
      exact iff_of_true rfl (List.isChain_singleton _)
  | case2 p t n hfirst ih =>
      have hdashes (body : Text) : t ≠ '-' :: '-' :: body := by
        rintro rfl
        rw [first_dash rfl] at hfirst
        cases hfirst
      rw [locate_trivia file p hfirst, locate_trivia file p (hsame hdashes hfirst)]
      exact ih
  | case3 p t tok n hfirst ih =>
      by_cases hdashes : ∃ body, t = '-' :: '-' :: body
      · -- The scans part here, and what follows does not matter.
        obtain ⟨body, rfl⟩ := hdashes
        exact iff_of_false (locate_dashes_ne file p rfl rfl body)
          (not_dashesApart_dashes file p rfl body)
      · have hdashes := not_exists.mp hdashes
        rw [locate_token file p hfirst, locate_token file p (hsame hdashes hfirst),
          dashesApart_cons_iff file p hfirst hdashes, List.cons_inj_right]
        exact ih

/-- A scan is the same with and without line comments if and only if no two minus signs of the scan
without them have nothing between them. -/
theorem scan_withLineComments_eq_iff (source : Text) (config : LexerConfig) (file : FileId) :
    (scan source (config.withLineComments false) file).1 =
        (scan source (config.withLineComments true) file).1 ↔
      DashesApart (scan source (config.withLineComments false) file).1.toList := by
  rw [← TokenStream.toList_inj, toList_scan, toList_scan]
  exact locate_withLineComments_eq_iff config file Position.start source

end Lexer

end CoolLexer
