import CoolLexer.Text

/-!
# Cutting a text

A cut between two byte offsets succeeds exactly where the offsets fall between characters. The
pieces of a text that has been put together are found again at their byte offsets.
-/

namespace CoolLexer.Text

private theorem charIndexFrom_cons (count n : Nat) (c : Char) (t : Text) :
    charIndexFrom count (c :: t) (c.utf8Size + n) = charIndexFrom (count + 1) t n := by
  have hc := c.utf8Size_pos
  obtain ⟨m, hm⟩ : ∃ m, c.utf8Size + n = m + 1 := ⟨c.utf8Size + n - 1, by omega⟩
  rw [hm, charIndexFrom, if_pos (by omega), show m + 1 - c.utf8Size = n by omega]

private theorem charIndexFrom_append (count : Nat) (before after : Text) :
    charIndexFrom count (before ++ after) before.byteLength = some (count + before.length) := by
  induction before generalizing count with
  | nil => cases after <;> rfl
  | cons c before ih =>
      rw [List.cons_append, byteLength_cons, charIndexFrom_cons, ih, List.length_cons]
      congr 1
      omega

theorem charIndex?_append (before after : Text) :
    (before ++ after).charIndex? before.byteLength = some before.length := by
  rw [charIndex?, charIndexFrom_append, Nat.zero_add]

/-- A piece of a text stands between the bytes before it and the bytes up to its end. -/
theorem slice?_append (before piece after : Text) :
    (before ++ (piece ++ after)).slice? before.byteLength (before.byteLength + piece.byteLength) =
      some piece := by
  have hstop : (before ++ (piece ++ after)).charIndex? (before.byteLength + piece.byteLength) =
      some (before.length + piece.length) := by
    rw [← byteLength_append, ← List.append_assoc, charIndex?_append, List.length_append]
  have htake : (before ++ (piece ++ after)).take (before.length + piece.length) =
      before ++ piece := by
    rw [← List.append_assoc, ← List.length_append, List.take_left]
  rw [slice?, if_pos (Nat.le_add_right _ _), charIndex?_append, hstop]
  change some (((before ++ (piece ++ after)).take (before.length + piece.length)).drop
    before.length) = some piece
  rw [htake, List.drop_left]

/-- The rest of a text stands between the bytes before it and the end. -/
theorem slice?_append_end (before after : Text) :
    (before ++ after).slice? before.byteLength (before ++ after).byteLength = some after := by
  have h := slice?_append before after []
  rwa [List.append_nil, ← byteLength_append] at h

theorem byteLength_pos {t : Text} (h : t ≠ []) : 0 < t.byteLength := by
  cases t with
  | nil => exact absurd rfl h
  | cons c t =>
      have hc := c.utf8Size_pos
      rw [byteLength_cons]
      omega

theorem take_length_takeWhile (p : Char → Bool) (t : Text) :
    t.take (t.takeWhile p).length = t.takeWhile p :=
  (List.prefix_iff_eq_take.mp (List.takeWhile_prefix p)).symm

theorem drop_length_takeWhile (p : Char → Bool) (t : Text) :
    t.drop (t.takeWhile p).length = t.dropWhile p := by
  have hleft : (t.takeWhile p ++ t.dropWhile p).drop (t.takeWhile p).length = t.dropWhile p :=
    List.drop_left
  rwa [List.takeWhile_append_dropWhile] at hleft

end CoolLexer.Text
