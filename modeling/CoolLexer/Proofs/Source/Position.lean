import CoolLexer.Source.Position
import Mathlib.Data.List.Induction

/-!
# Lines and columns of a text

The line of a place counts the newlines before it, and the column counts the characters since the
last of them. A text that starts further on in a source has all its places moved with it, but its
columns move on its first line only.
-/

namespace CoolLexer.Position

/-- The place `p` of a text, as a place of the source in which the text starts at `origin`. -/
def relocate (origin p : Position) : Position where
  offset := origin.offset + p.offset
  line := origin.line + (p.line - 1)
  column := if p.line = 1 then origin.column + (p.column - 1) else p.column

theorem advanceBy_concat (p : Position) (t : Text) (c : Char) :
    p.advanceBy (t ++ [c]) = (p.advanceBy t).advance c :=
  advanceBy_append p t [c]

theorem offset_advanceBy_start (t : Text) : (start.advanceBy t).offset = t.byteLength := by
  rw [advanceBy_offset]
  exact Nat.zero_add _

theorem line_advanceBy (p : Position) (t : Text) :
    (p.advanceBy t).line = p.line + t.count '\n' := by
  induction t using List.reverseRecOn with
  | nil => rfl
  | append_singleton t c ih =>
      rw [advanceBy_concat, advance, List.count_append, ← Nat.add_assoc, ← ih]
      by_cases hc : c = '\n'
      · simp [hc]
      · simp [hc]

theorem column_advanceBy_start (t : Text) :
    (start.advanceBy t).column = 1 + (t.reverse.takeWhile (· != '\n')).length := by
  induction t using List.reverseRecOn with
  | nil => rfl
  | append_singleton t c ih =>
      rw [advanceBy_concat, advance, List.reverse_concat]
      by_cases hc : c = '\n'
      · simp [hc]
      · simp [hc, ih, Nat.add_assoc]

theorem line_advanceBy_start_le (t : Text) : (start.advanceBy t).line ≤ 1 + t.length := by
  have hline : (start.advanceBy t).line = 1 + t.count '\n' := line_advanceBy start t
  have hcount : t.count '\n' ≤ t.length := List.count_le_length
  omega

theorem column_advanceBy_start_le (t : Text) : (start.advanceBy t).column ≤ 1 + t.length := by
  have hrun := (List.takeWhile_prefix (· != '\n') (l := t.reverse)).length_le
  rw [List.length_reverse] at hrun
  rw [column_advanceBy_start]
  omega

private theorem line_pos_advance {p : Position} (h : 1 ≤ p.line) (c : Char) :
    1 ≤ (p.advance c).line := by
  unfold advance
  split
  · exact Nat.le_add_left 1 p.line
  · exact h

private theorem column_pos_advance (p : Position) (c : Char) : 1 ≤ (p.advance c).column := by
  unfold advance
  split
  · exact Nat.le_refl 1
  · exact Nat.le_add_left 1 p.column

theorem line_pos_advanceBy {p : Position} (h : 1 ≤ p.line) (t : Text) :
    1 ≤ (p.advanceBy t).line := by
  rw [line_advanceBy]
  omega

theorem column_pos_advanceBy {p : Position} (h : 1 ≤ p.column) (t : Text) :
    1 ≤ (p.advanceBy t).column := by
  induction t generalizing p with
  | nil => exact h
  | cons c t ih => exact ih (column_pos_advance p c)

private theorem relocate_advance (origin : Position) {p : Position} (hline : 1 ≤ p.line)
    (hcolumn : 1 ≤ p.column) (c : Char) :
    (origin.relocate p).advance c = origin.relocate (p.advance c) := by
  by_cases hc : c = '\n'
  · have hnext : p.line ≠ 0 := by omega
    have hsum : origin.line + (p.line - 1) + 1 = origin.line + p.line := by omega
    simp [relocate, advance, hc, hnext, hsum, Nat.add_assoc]
  · by_cases hfirst : p.line = 1
    · have hsum : origin.column + (p.column - 1) + 1 = origin.column + p.column := by omega
      simp [relocate, advance, hc, hfirst, hsum, Nat.add_assoc]
    · simp [relocate, advance, hc, hfirst, Nat.add_assoc]

/-- Going on from a place and going on from where it is moved to lead to the same place. -/
theorem relocate_advanceBy (origin : Position) {p : Position} (hline : 1 ≤ p.line)
    (hcolumn : 1 ≤ p.column) (t : Text) :
    (origin.relocate p).advanceBy t = origin.relocate (p.advanceBy t) := by
  induction t generalizing p with
  | nil => rfl
  | cons c t ih =>
      have hstep := relocate_advance origin hline hcolumn c
      have hrest := ih (line_pos_advance hline c) (column_pos_advance p c)
      calc (origin.relocate p).advanceBy (c :: t)
          = ((origin.relocate p).advance c).advanceBy t := rfl
        _ = (origin.relocate (p.advance c)).advanceBy t := by rw [hstep]
        _ = origin.relocate (p.advanceBy (c :: t)) := hrest

end CoolLexer.Position
