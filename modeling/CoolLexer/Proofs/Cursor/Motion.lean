import CoolLexer.Cursor
import CoolLexer.Proofs.Source.Position
import CoolLexer.Proofs.Text.Slice
import Mathlib.Algebra.Group.Nat.Defs

/-!
# Cursors on their way

A cursor carries the text ahead of it. The same way can be gone with the position alone, where every
character is found by a cut of the source at the offset reached, and where lines and columns have to
fit into 32 bits. In a source that is not too long this never fails.
-/

namespace CoolLexer

namespace Position

/-- Line and column fit into 32 bits. -/
def Fits (p : Position) : Prop := p.line < 2 ^ 32 ∧ p.column < 2 ^ 32

instance (p : Position) : Decidable p.Fits := inferInstanceAs (Decidable (_ ∧ _))

/-- The place one character further in `source`. There is none where the cut fails, at the end, and
where the line or the column gets too large. -/
def step? (source : Text) (p : Position) : Option Position := do
  let ahead ← source.slice? p.offset source.byteLength
  let c ← ahead.head?
  if (p.advance c).Fits then some (p.advance c) else none

/-- The place a number of characters further in `source`. -/
def walk? (source : Text) (p : Position) : Nat → Option Position
  | 0 => some p
  | n + 1 => (p.step? source).bind fun q => q.walk? source n

theorem fits_advanceBy_start {t : Text} (h : t.length < 2 ^ 32 - 1) :
    (start.advanceBy t).Fits := by
  have hline := line_advanceBy_start_le t
  have hcolumn := column_advanceBy_start_le t
  exact ⟨by omega, by omega⟩

section
variable {source before : Text} (hsize : source.length < 2 ^ 32 - 1)
include hsize

private theorem step?_advanceBy_start {c : Char} {after : Text}
    (hsource : source = before ++ c :: after) :
    (start.advanceBy before).step? source = some (start.advanceBy (before ++ [c])) := by
  have hcut := Text.slice?_append_end before (c :: after)
  have hfits : (start.advanceBy (before ++ [c])).Fits := by
    apply fits_advanceBy_start
    rw [hsource, List.length_append, List.length_cons] at hsize
    rw [List.length_append, List.length_singleton]
    omega
  rw [advanceBy_concat] at hfits ⊢
  rw [step?, offset_advanceBy_start, hsource, hcut]
  exact if_pos hfits

/-- In a source of fewer than `2 ^ 32 - 1` characters a walk gets to where the characters lead. -/
theorem walk?_advanceBy_start {moved after : Text} (hsource : source = before ++ (moved ++ after)) :
    (start.advanceBy before).walk? source moved.length =
      some (start.advanceBy (before ++ moved)) := by
  induction moved generalizing before with
  | nil =>
      rw [List.append_nil]
      rfl
  | cons c moved ih =>
      have hstep := step?_advanceBy_start hsize hsource
      have hsource' : source = (before ++ [c]) ++ (moved ++ after) := by simp [hsource]
      have hrest := ih hsource'
      rw [List.length_cons, walk?, hstep, Option.bind_some, hrest, List.append_assoc]
      rfl

end

end Position

namespace Cursor

/-- The cursor stands in its source behind `passed`. -/
structure HasPassed (cursor : Cursor) (passed : Text) : Prop where
  source : cursor.source = passed ++ cursor.rest
  position : cursor.position = Position.start.advanceBy passed

/-- The way from one cursor over `moved` to another. No step of it fails, and neither does a cut of
the source between two places on it. -/
structure Moves (first : Cursor) (moved : Text) (last : Cursor) : Prop where
  source : last.source = first.source
  rest : first.rest = moved ++ last.rest
  walk : first.position.walk? first.source moved.length = some last.position
  cuts : ∀ before piece after, moved = before ++ (piece ++ after) →
    first.source.slice? (first.position.advanceBy before).offset
      (first.position.advanceBy (before ++ piece)).offset = some piece

variable (cursor : Cursor)

theorem skip_skip (m n : Nat) : (cursor.skip m).skip n = cursor.skip (m + n) := by
  have hrest : (cursor.rest.drop m).drop n = cursor.rest.drop (m + n) := List.drop_drop
  have htake : cursor.rest.take m ++ (cursor.rest.drop m).take n = cursor.rest.take (m + n) :=
    List.take_add.symm
  simp only [skip, hrest, ← htake, Position.advanceBy_append]

theorem eatWhile_eq_skip (p : Char → Bool) :
    (cursor.eatWhile p).2 = cursor.skip (cursor.rest.takeWhile p).length := by
  rw [eatWhile, skip, Text.take_length_takeWhile, Text.drop_length_takeWhile]

theorem offset_le_skip (n : Nat) : cursor.position.offset ≤ (cursor.skip n).position.offset := by
  have hoffset := Position.advanceBy_offset cursor.position (cursor.rest.take n)
  exact hoffset ▸ Nat.le_add_right _ _

theorem hasPassed_start (source : Text) : (start source).HasPassed [] := ⟨rfl, rfl⟩

variable {cursor} {passed : Text}

theorem HasPassed.skip (h : cursor.HasPassed passed) (n : Nat) :
    (cursor.skip n).HasPassed (passed ++ cursor.rest.take n) where
  source := by
    rw [source_skip, rest_skip, List.append_assoc, List.take_append_drop]
    exact h.source
  position := by
    rw [Position.advanceBy_append, ← h.position]
    rfl

/-- Wherever a cursor stands in a source that is not too long, it can go on. -/
theorem HasPassed.moves_skip (h : cursor.HasPassed passed)
    (hsize : cursor.source.length < 2 ^ 32 - 1) (n : Nat) :
    cursor.Moves (cursor.rest.take n) (cursor.skip n) where
  source := rfl
  rest := (List.take_append_drop n cursor.rest).symm
  walk := by
    have hsource : cursor.source = passed ++ (cursor.rest.take n ++ cursor.rest.drop n) := by
      rw [List.take_append_drop]
      exact h.source
    have hwalk := Position.walk?_advanceBy_start hsize hsource
    rw [← (h.skip n).position, ← h.position] at hwalk
    exact hwalk
  cuts := by
    intro before piece after hmoved
    have hrest := List.take_append_drop n cursor.rest
    rw [hmoved] at hrest
    have hsource : cursor.source =
        passed ++ before ++ (piece ++ (after ++ cursor.rest.drop n)) := by
      have hsplit := h.source
      rw [← hrest] at hsplit
      simpa only [List.append_assoc] using hsplit
    have hcut := Text.slice?_append (passed ++ before) piece (after ++ cursor.rest.drop n)
    rw [h.position, ← Position.advanceBy_append, ← Position.advanceBy_append, ← List.append_assoc,
      Position.offset_advanceBy_start, Position.offset_advanceBy_start,
      Text.byteLength_append _ piece, hsource]
    exact hcut

end Cursor

end CoolLexer
