import CoolLexer.Source.Position

/-!
# Spans

A span is the range of source that a token or a diagnostic covers.
-/

namespace CoolLexer

/-- Files are numbered in the order in which they were added to a source map. -/
abbrev FileId := Nat

/-- A range of bytes with the line and column of its start. -/
structure Span where
  start : Nat
  /-- One past the last byte. -/
  stop : Nat
  line : Nat
  /-- Column of the first byte, in characters. -/
  column : Nat
  file : FileId := 0
deriving Repr, DecidableEq

namespace Span

/-- The span of something that has no place in a source. -/
def unknown : Span := ⟨0, 0, 0, 0, 0⟩

/-- The range from one position up to another. -/
def between (file : FileId) (first last : Position) : Span :=
  ⟨first.offset, last.offset, first.line, first.column, file⟩

end Span

end CoolLexer
