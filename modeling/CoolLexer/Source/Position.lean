import CoolLexer.Text

/-!
# Positions in a source

A position counts bytes from zero, and lines and columns from one. Columns count characters.
-/

namespace CoolLexer

/-- A place between two characters of a source. -/
structure Position where
  /-- Bytes of the source before this place. -/
  offset : Nat
  /-- One more than the newlines before this place. -/
  line : Nat
  /-- One more than the characters since the last newline. -/
  column : Nat
deriving Repr, DecidableEq

namespace Position

def start : Position := ⟨0, 1, 1⟩

def advance (p : Position) (c : Char) : Position :=
  if c = '\n' then ⟨p.offset + c.utf8Size, p.line + 1, 1⟩
  else ⟨p.offset + c.utf8Size, p.line, p.column + 1⟩

def advanceBy (p : Position) (t : Text) : Position := t.foldl advance p

theorem advanceBy_append (p : Position) (s t : Text) :
    p.advanceBy (s ++ t) = (p.advanceBy s).advanceBy t :=
  List.foldl_append

theorem advanceBy_offset (p : Position) (t : Text) :
    (p.advanceBy t).offset = p.offset + t.byteLength := by
  induction t generalizing p with
  | nil => rfl
  | cons c t ih =>
      rw [advanceBy, List.foldl_cons, ← advanceBy, ih, Text.byteLength_cons, advance]
      split <;> simp [Nat.add_assoc]

end Position

end CoolLexer
