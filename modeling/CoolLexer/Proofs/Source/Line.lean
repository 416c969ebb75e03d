import CoolLexer.Proofs.Source.Position
import CoolLexer.Proofs.Text.Slice
import CoolLexer.Source.File

/-!
# The lines of a source file

A source file finds its lines through the byte offsets at which they start, while a position counts
the newlines passed on the way. Both number the lines of a text alike: the line of a position is the
one that the file shows under that number, and the column tells the place in it.
-/

namespace CoolLexer

/-- The text `line` fills the room between the line breaks around it. -/
structure Text.IsLine (front line back : Text) : Prop where
  starts : front = [] ∨ front.getLast? = some '\n'
  unbroken : '\n' ∉ line
  stops : back = [] ∨ back.head? = some '\n'

/-- From every place a text goes on with the rest of a line. -/
theorem Text.exists_rest_of_line (t : Text) :
    ∃ tail back, t = tail ++ back ∧ '\n' ∉ tail ∧ (back = [] ∨ back.head? = some '\n') := by
  induction t with
  | nil => exact ⟨[], [], rfl, by simp, .inl rfl⟩
  | cons c t ih =>
      by_cases hc : c = '\n'
      · exact ⟨[], c :: t, rfl, by simp, .inr (by simp [hc])⟩
      · obtain ⟨tail, back, rfl, htail, hback⟩ := ih
        exact ⟨c :: tail, back, rfl, by simp [htail, Ne.symm hc], hback⟩

namespace SourceFile

/-- The starts of all lines but the first, in a text that starts at byte `offset`. -/
def laterStarts (offset : Nat) : Text → List Nat
  | [] => []
  | c :: t =>
      let rest := laterStarts (offset + c.utf8Size) t
      if c = '\n' then (offset + c.utf8Size) :: rest else rest

private theorem toList_foldl_lineStartStep (content : Text) (offset : Nat) (found : Array Nat) :
    (content.foldl lineStartStep (offset, found)).2.toList =
      found.toList ++ laterStarts offset content := by
  induction content generalizing offset found with
  | nil => simp [laterStarts]
  | cons c content ih =>
      rw [List.foldl_cons, lineStartStep, ih, laterStarts]
      by_cases hc : c = '\n'
      · simp [hc]
      · simp [hc]

theorem toList_lineStarts (content : Text) :
    (lineStarts content).toList = 0 :: laterStarts 0 content :=
  toList_foldl_lineStartStep content 0 #[0]

theorem laterStarts_append (offset : Nat) (s t : Text) :
    laterStarts offset (s ++ t) =
      laterStarts offset s ++ laterStarts (offset + s.byteLength) t := by
  induction s generalizing offset with
  | nil => rfl
  | cons c s ih =>
      rw [List.cons_append, laterStarts, laterStarts, ih, Text.byteLength_cons, ← Nat.add_assoc]
      by_cases hc : c = '\n'
      · simp [hc]
      · simp [hc]

theorem length_laterStarts (offset : Nat) (t : Text) :
    (laterStarts offset t).length = t.count '\n' := by
  induction t generalizing offset with
  | nil => rfl
  | cons c t ih =>
      rw [laterStarts]
      by_cases hc : c = '\n'
      · simp [hc, ih]
      · simp [hc, ih]

theorem size_lineStarts (content : Text) : (lineStarts content).size = content.count '\n' + 1 := by
  rw [← Array.length_toList, toList_lineStarts, List.length_cons, length_laterStarts]

/-- A line behind `n` newlines starts where the text in front of it ends. -/
theorem getElem?_lineStarts {front : Text} (h : front = [] ∨ front.getLast? = some '\n')
    (rest : Text) : (lineStarts (front ++ rest))[front.count '\n']? = some front.byteLength := by
  rw [← Array.getElem?_toList, toList_lineStarts, laterStarts_append]
  rcases h with rfl | hlast
  · rfl
  · obtain ⟨init, rfl⟩ := List.getLast?_eq_some_iff.mp hlast
    have hcount : (init ++ ['\n']).count '\n' = init.count '\n' + 1 := by simp
    rw [hcount, List.getElem?_cons_succ, laterStarts_append, ← length_laterStarts 0 init]
    simp [laterStarts]

theorem getElem?_lineStarts_next {front line back : Text} (h : Text.IsLine front line back) :
    (lineStarts (front ++ (line ++ back)))[front.count '\n' + 1]? =
      if back = [] then none else some ((front ++ line).byteLength + 1) := by
  have hline : line.count '\n' = 0 := List.count_eq_zero.mpr h.unbroken
  by_cases hback : back = []
  · rw [if_pos hback, Array.getElem?_eq_none_iff, size_lineStarts]
    simp [hback, hline]
  · obtain ⟨back, rfl⟩ := List.head?_eq_some_iff.mp (h.stops.resolve_left hback)
    have hnewline : front ++ line ++ ['\n'] = [] ∨
        (front ++ line ++ ['\n']).getLast? = some '\n' := .inr (by simp)
    have hnext := getElem?_lineStarts hnewline back
    have hcount : (front ++ line ++ ['\n']).count '\n' = front.count '\n' + 1 := by simp [hline]
    have hlength : (front ++ line ++ ['\n']).byteLength = (front ++ line).byteLength + 1 :=
      Text.byteLength_append _ _
    rw [hcount, hlength] at hnext
    rw [if_neg hback]
    simpa using hnext

/-- The line behind `n` newlines is shown under the number `n + 1`. -/
theorem lineAt_eq {file : SourceFile} {front line back : Text} (h : Text.IsLine front line back)
    (hcontent : file.content = front ++ (line ++ back)) :
    file.lineAt (front.count '\n' + 1) = .ok (stripReturn line) := by
  have hstart := getElem?_lineStarts h.starts (line ++ back)
  have hnext := getElem?_lineStarts_next h
  have hcut := Text.slice?_append front line back
  rw [← Text.byteLength_append] at hcut
  rw [← hcontent] at hstart hnext hcut
  rw [lineAt]
  by_cases hback : back = []
  · have hlength : file.content.byteLength = (front ++ line).byteLength := by simp [hcontent, hback]
    rw [if_pos hback] at hnext
    simp only [Nat.add_one_ne_zero, if_false, Nat.add_sub_cancel, hstart, hnext, hlength, hcut]
  · rw [if_neg hback] at hnext
    simp only [Nat.add_one_ne_zero, if_false, Nat.add_sub_cancel, hstart, hnext, hcut]

/-- The return that a line may end with is not shown, and all in front of it is. -/
theorem exists_stripReturn_eq (part : Text) {c : Char} (hc : c ≠ '\r') (tail : Text) :
    ∃ tail', stripReturn (part ++ c :: tail) = part ++ c :: tail' := by
  by_cases hlast : (part ++ c :: tail).getLast? = some '\r'
  · have htail : tail ≠ [] := by
      rintro rfl
      exact hc (by simpa using hlast)
    refine ⟨tail.dropLast, ?_⟩
    rw [stripReturn, if_pos hlast, List.dropLast_append_of_ne_nil (List.cons_ne_nil c tail),
      List.dropLast_cons_of_ne_nil htail]
  · exact ⟨tail, if_neg hlast⟩

theorem mem_of_mem_stripReturn {line : Text} {c : Char} (h : c ∈ stripReturn line) : c ∈ line := by
  unfold stripReturn at h
  split at h
  · exact line.dropLast_subset h
  · exact h

end SourceFile

namespace Position

/-- The text passed on the way to a place ends with the part of a line that the column counts. -/
theorem exists_part_of_line (passed : Text) :
    ∃ front part, passed = front ++ part ∧ (front = [] ∨ front.getLast? = some '\n') ∧
      '\n' ∉ part ∧ (start.advanceBy passed).line = front.count '\n' + 1 ∧
      (start.advanceBy passed).column = part.length + 1 := by
  induction passed using List.reverseRecOn with
  | nil => exact ⟨[], [], rfl, .inl rfl, by simp, rfl, rfl⟩
  | append_singleton passed c ih =>
      obtain ⟨front, part, rfl, hfront, hpart, hline, hcolumn⟩ := ih
      rw [advanceBy_concat, advance]
      by_cases hc : c = '\n'
      · refine ⟨front ++ part ++ [c], [], by simp, .inr (by simp [hc]), by simp, ?_, ?_⟩
        · simp [hc, hline, List.count_eq_zero.mpr hpart]
        · simp [hc]
      · refine ⟨front, part ++ [c], by simp, hfront, ?_, ?_, ?_⟩
        · simp [hpart, Ne.symm hc]
        · simp [hc, hline]
        · simp [hc, hcolumn]

/-- The line around a character that is no newline is found under the number of its position, and
the column tells the part of the line in front of the character. -/
theorem exists_line (name before : Text) {c : Char} (hbreak : c ≠ '\n') (after : Text) :
    ∃ front part tail back, before = front ++ part ∧ after = tail ++ back ∧
      Text.IsLine front (part ++ c :: tail) back ∧
      (start.advanceBy before).line = front.count '\n' + 1 ∧
      (start.advanceBy before).column = part.length + 1 ∧
      SourceFile.lineAt ⟨name, before ++ c :: after⟩ (front.count '\n' + 1) =
        .ok (SourceFile.stripReturn (part ++ c :: tail)) := by
  obtain ⟨front, part, rfl, hfront, hpart, hline, hcolumn⟩ := exists_part_of_line before
  obtain ⟨tail, back, rfl, htail, hback⟩ := Text.exists_rest_of_line after
  have hwhole : Text.IsLine front (part ++ c :: tail) back :=
    ⟨hfront, by simp [hpart, htail, Ne.symm hbreak], hback⟩
  exact ⟨front, part, tail, back, rfl, rfl, hwhole, hline, hcolumn,
    SourceFile.lineAt_eq hwhole (by simp)⟩

end Position

end CoolLexer
