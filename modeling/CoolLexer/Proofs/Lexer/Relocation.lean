import CoolLexer.Proofs.Lexer.Report
import CoolLexer.Proofs.Source.Position

/-!
# The tokens of a text that starts further on

The tokens of a text do not depend on the place where it starts. Their spans move with it, and so do
the spans of what is reported.
-/

namespace CoolLexer

/-- A span of a text, in the source in which the text starts at `origin`. -/
def Span.relocate (origin : Position) (span : Span) : Span :=
  let first := origin.relocate ⟨span.start, span.line, span.column⟩
  ⟨first.offset, origin.offset + span.stop, first.line, first.column, span.file⟩

def LocatedToken.relocate (origin : Position) (located : LocatedToken) : LocatedToken :=
  { located with span := located.span.relocate origin }

def Diagnostic.relocate (origin : Position) (diagnostic : Diagnostic) : Diagnostic :=
  { diagnostic with span := diagnostic.span.relocate origin }

theorem LocatedToken.diagnostic?_relocate (origin : Position) (located : LocatedToken) :
    (located.relocate origin).diagnostic? =
      located.diagnostic?.map (Diagnostic.relocate origin) := by
  rw [diagnostic?, diagnostic?, Option.map_map]
  rfl

namespace Lexer

private theorem locate_relocate_of_pos (config : LexerConfig) (file : FileId) (origin p : Position)
    (t : Text) (hline : 1 ≤ p.line) (hcolumn : 1 ≤ p.column) :
    locate config file (origin.relocate p) t =
      (locate config file p t).map (LocatedToken.relocate origin) := by
  induction p, t using locate.induct config with
  | case1 p t hfirst =>
      rw [locate_endOfText file _ hfirst, locate_endOfText file _ hfirst]
      rfl
  | case2 p t n hfirst ih =>
      have hmove := Position.relocate_advanceBy origin hline hcolumn (t.take n)
      have hline' := Position.line_pos_advanceBy hline (t.take n)
      have hcolumn' := Position.column_pos_advanceBy hcolumn (t.take n)
      have hrest := ih hline' hcolumn'
      rw [locate_trivia file _ hfirst, locate_trivia file _ hfirst, hmove, hrest]
  | case3 p t tok n hfirst ih =>
      have hmove := Position.relocate_advanceBy origin hline hcolumn (t.take n)
      have hline' := Position.line_pos_advanceBy hline (t.take n)
      have hcolumn' := Position.column_pos_advanceBy hcolumn (t.take n)
      have hrest := ih hline' hcolumn'
      rw [locate_token file _ hfirst, locate_token file _ hfirst, hmove, hrest]
      rfl

/-- Behind a text that ends at `origin`, the tokens of a source are moved there. -/
theorem locate_relocate (config : LexerConfig) (file : FileId) (origin : Position) (t : Text) :
    locate config file origin t =
      (locate config file Position.start t).map (LocatedToken.relocate origin) :=
  locate_relocate_of_pos config file origin Position.start t (Nat.le_refl 1) (Nat.le_refl 1)

end Lexer

end CoolLexer
