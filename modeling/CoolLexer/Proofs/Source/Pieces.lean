import CoolLexer.Proofs.Source.Line
import CoolLexer.Proofs.Text.Utf8

/-!
# Lines as pieces of the content

The lines of a file are the pieces between the newlines of its content. They start behind the bytes
that are newlines, and on the way from the number of a line to its text nothing can go wrong.
-/

namespace CoolLexer

namespace Text

/-- A text without the return at its end, if there is one. -/
def withoutReturn (t : Text) : Text := (t.dropSuffix? ['\r']).getD t

theorem length_splitOn_newline (t : Text) : (t.splitOn '\n').length = 1 + t.count '\n' := by
  induction t with
  | nil => rfl
  | cons c t ih =>
      rw [List.splitOn_cons_eq_if_modifyHead]
      by_cases hc : c = '\n'
      · simp [hc, ih, Nat.add_comm]
      · simp [hc, ih]

/-- Behind every newline, and at the start, a piece of the text fills a line. -/
theorem exists_isLine (t : Text) {i : Nat} (h : i ≤ t.count '\n') :
    ∃ front line back, t = front ++ (line ++ back) ∧ IsLine front line back ∧
      front.count '\n' = i ∧ (t.splitOn '\n')[i]? = some line := by
  induction i generalizing t with
  | zero =>
      obtain ⟨line, back, rfl, hline, hback⟩ := exists_rest_of_line t
      refine ⟨[], line, back, rfl, ⟨.inl rfl, hline, hback⟩, rfl, ?_⟩
      rcases hback with rfl | hnewline
      · rw [List.append_nil, List.splitOn_eq_singleton hline]
        rfl
      · obtain ⟨rest, rfl⟩ := List.head?_eq_some_iff.mp hnewline
        rw [List.splitOn_append_cons_self_of_not_mem hline]
        rfl
  | succ i ih =>
      obtain ⟨first, back, rfl, hfirst, hback⟩ := exists_rest_of_line t
      have hnone : first.count '\n' = 0 := List.count_eq_zero.mpr hfirst
      rw [List.count_append, hnone, Nat.zero_add] at h
      rcases hback with rfl | hnewline
      · exact absurd h (Nat.not_succ_le_zero i)
      obtain ⟨rest, rfl⟩ := List.head?_eq_some_iff.mp hnewline
      rw [List.count_cons_self] at h
      obtain ⟨front, line, back, rfl, hline, hcount, hpiece⟩ := ih rest (Nat.le_of_succ_le_succ h)
      have hstarts : first ++ '\n' :: front = [] ∨
          (first ++ '\n' :: front).getLast? = some '\n' := by
        rcases hline.starts with rfl | hlast
        · exact .inr (by simp)
        · exact .inr (by simp [List.getLast?_cons, hlast])
      refine ⟨first ++ '\n' :: front, line, back, by simp,
        ⟨hstarts, hline.unbroken, hline.stops⟩, ?_, ?_⟩
      · rw [List.count_append, hnone, List.count_cons_self, hcount, Nat.zero_add]
      · rw [List.splitOn_append_cons_self_of_not_mem hfirst]
        exact hpiece

/-- The byte of a newline is found in the encoding of a newline only. -/
theorem idxsOf_utf8EncodeChar (c : Char) (offset : Nat) :
    (String.utf8EncodeChar c).idxsOf 10 offset = if c = '\n' then [offset] else [] := by
  by_cases hc : c = '\n'
  · rw [hc]
    rfl
  rw [if_neg hc, List.idxsOf_eq_nil_iff]
  intro b hb
  apply beq_false_of_ne
  rintro rfl
  rcases utf8EncodeChar_cases c with ⟨hsmall, hone⟩ | ⟨-, hmore⟩
  · rw [hone, List.mem_singleton] at hb
    have hnat := congrArg UInt8.toNat hb
    rw [UInt8.toNat_ofNat', Nat.mod_eq_of_lt (by omega)] at hnat
    apply hc
    rw [← Char.ofNat_toNat c, ← hnat]
    rfl
  · exact absurd (hmore 10 hb) (by decide)

end Text

namespace SourceFile

/-- The line with a given number, counted from one, as a piece between newlines. -/
def pieceAt (content : Text) : Nat → Except SourceError Text
  | 0 => .error (.noSuchLine 0 (1 + content.count '\n'))
  | i + 1 =>
      match (content.splitOn '\n')[i]? with
      | some piece => .ok (Text.withoutReturn piece)
      | none => .error (.noSuchLine (i + 1) (1 + content.count '\n'))

/-- The starts of the lines, found among the bytes of a content. -/
def byteStarts (content : Text) : List Nat := 0 :: (content.utf8.idxsOf 10).map (· + 1)

/-- Looks up a line by steps that can fail: where there is no such start, where the break before the
next start would lie below zero, and where the cut ends beyond the content or inside a character. -/
def lineAt? (file : SourceFile) (line : Nat) : Option (Except SourceError Text) :=
  let starts := byteStarts file.content
  if line = 0 ∨ starts.length < line then some (.error (.noSuchLine line starts.length))
  else do
    let start ← starts[line - 1]?
    let stop ← match starts[line]? with
      | some 0 => none
      | some (next + 1) => some next
      | none => some file.content.utf8.length
    let text ← file.content.slice? start stop
    return .ok (stripReturn text)

theorem laterStarts_eq_idxsOf (offset : Nat) (t : Text) :
    laterStarts offset t = (t.utf8.idxsOf 10 offset).map (· + 1) := by
  induction t generalizing offset with
  | nil => rfl
  | cons c t ih =>
      rw [laterStarts, Text.utf8_cons, List.idxsOf_append, Text.idxsOf_utf8EncodeChar,
        String.length_utf8EncodeChar, ih]
      by_cases hc : c = '\n'
      · subst hc
        rfl
      · simp [hc]

/-- The bytes and the characters of a content give the same starts. -/
theorem toList_lineStarts_eq (content : Text) :
    (lineStarts content).toList = byteStarts content := by
  rw [toList_lineStarts, byteStarts, laterStarts_eq_idxsOf]

theorem stripReturn_eq_withoutReturn (line : Text) : stripReturn line = line.withoutReturn := by
  have hiff (front : Text) : line.dropSuffix? ['\r'] = some front ↔ line = front ++ ['\r'] := by
    simp [List.dropSuffix?_eq_some_iff]
  by_cases hlast : line.getLast? = some '\r'
  · obtain ⟨front, hfront⟩ := List.getLast?_eq_some_iff.mp hlast
    rw [stripReturn, if_pos hlast, Text.withoutReturn, (hiff front).mpr hfront, hfront,
      List.dropLast_concat]
    rfl
  · have hnone : line.dropSuffix? ['\r'] = none := by
      rw [Option.eq_none_iff_forall_ne_some]
      intro front hfront
      exact hlast (by simp [(hiff front).mp hfront])
    rw [stripReturn, if_neg hlast, Text.withoutReturn, hnone]
    rfl

theorem getElem?_byteStarts (content : Text) (i : Nat) :
    (byteStarts content)[i]? = (lineStarts content)[i]? := by
  rw [← toList_lineStarts_eq, Array.getElem?_toList]

theorem length_byteStarts (content : Text) :
    (byteStarts content).length = 1 + content.count '\n' := by
  rw [← toList_lineStarts_eq, Array.length_toList, size_lineStarts, Nat.add_comm]

section
variable {file : SourceFile}

/-- A line that the content does not have is refused, also by the steps that can fail. -/
theorem lineAt_eq_of_outside {line : Nat} (h : line = 0 ∨ 1 + file.content.count '\n' < line) :
    file.lineAt line = .error (.noSuchLine line (1 + file.content.count '\n')) ∧
      file.lineAt? line = some (.error (.noSuchLine line (1 + file.content.count '\n'))) := by
  constructor
  · rw [lineAt, size_lineStarts, Nat.add_comm]
    rcases h with rfl | hbeyond
    · rfl
    · have hnone : (lineStarts file.content)[line - 1]? = none := by
        rw [Array.getElem?_eq_none_iff, size_lineStarts]
        omega
      rw [if_neg (by omega), hnone]
  · rw [lineAt?, length_byteStarts]
    exact if_pos h

/-- The steps from the number of a line to its text lead to the line between two breaks. -/
theorem lineAt?_eq {front line back : Text} (h : Text.IsLine front line back)
    (hcontent : file.content = front ++ (line ++ back)) :
    file.lineAt? (front.count '\n' + 1) = some (.ok (stripReturn line)) := by
  have hstart := getElem?_lineStarts h.starts (line ++ back)
  have hnext := getElem?_lineStarts_next h
  have hcut := Text.slice?_append front line back
  rw [← Text.byteLength_append] at hcut
  rw [← hcontent] at hstart hnext hcut
  have hinside : ¬(front.count '\n' + 1 = 0 ∨
      (byteStarts file.content).length < front.count '\n' + 1) := by
    rw [length_byteStarts, hcontent, List.count_append]
    omega
  rw [lineAt?, if_neg hinside, Nat.add_sub_cancel, getElem?_byteStarts, getElem?_byteStarts,
    hstart, hnext]
  by_cases hback : back = []
  · have hlength : file.content.byteLength = (front ++ line).byteLength := by simp [hcontent, hback]
    rw [if_pos hback, Text.length_utf8, hlength]
    simp only [Option.bind_eq_bind, Option.bind_some, hcut]
    rfl
  · rw [if_neg hback]
    simp only [Option.bind_eq_bind, Option.bind_some, hcut]
    rfl

theorem lineAt_eq_of_inside {i : Nat} (h : i ≤ file.content.count '\n') :
    file.lineAt (i + 1) = pieceAt file.content (i + 1) ∧
      file.lineAt? (i + 1) = some (file.lineAt (i + 1)) := by
  obtain ⟨front, line, back, hcontent, hline, rfl, hpiece⟩ := Text.exists_isLine file.content h
  rw [lineAt?_eq hline hcontent, lineAt_eq hline hcontent, pieceAt, hpiece,
    stripReturn_eq_withoutReturn]
  exact ⟨rfl, rfl⟩

theorem pieceAt_of_outside {content : Text} {line : Nat}
    (h : line = 0 ∨ 1 + content.count '\n' < line) :
    pieceAt content line = .error (.noSuchLine line (1 + content.count '\n')) := by
  cases line with
  | zero => rfl
  | succ i =>
      have hnone : (content.splitOn '\n')[i]? = none := by
        rw [List.getElem?_eq_none_iff, Text.length_splitOn_newline]
        omega
      rw [pieceAt, hnone]

end

/-- A content has one line more than newlines. The line under each number is the piece between two
newlines without the return at its end, and all other numbers are refused. The starts of the lines
are those found among the bytes, and no step from a number to its line fails. -/
theorem lineAt_eq_pieceAt (file : SourceFile) :
    (lineStarts file.content).size = 1 + file.content.count '\n' ∧
      (lineStarts file.content).toList = byteStarts file.content ∧
      (file.content.splitOn '\n').length = 1 + file.content.count '\n' ∧
      ∀ line, file.lineAt line = pieceAt file.content line ∧
        file.lineAt? line = some (file.lineAt line) := by
  refine ⟨by rw [size_lineStarts, Nat.add_comm], toList_lineStarts_eq file.content,
    Text.length_splitOn_newline file.content, ?_⟩
  intro line
  by_cases houtside : line = 0 ∨ 1 + file.content.count '\n' < line
  · obtain ⟨hline, hsteps⟩ := lineAt_eq_of_outside houtside
    rw [hline, hsteps, pieceAt_of_outside houtside]
    exact ⟨rfl, rfl⟩
  · obtain ⟨i, rfl⟩ : ∃ i, line = i + 1 := ⟨line - 1, by omega⟩
    exact lineAt_eq_of_inside (by omega)

end SourceFile

end CoolLexer
