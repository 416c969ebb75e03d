import CoolLexer.Proofs.Diagnostic.Caret
import CoolLexer.Proofs.Lexer.Lookahead

/-!
# Carets under the line that is shown

As many carets are shown as the error has characters, or one if it goes on behind its line. They
end with the line in the source. The line is shown without a return at its end, though, and an error
that is still open at the end of the source takes such a return: then the last caret stands behind
the line. Nowhere else is there a caret that marks no character.
-/

namespace CoolLexer

/-- How many carets the last row of a block has. -/
def caretCount (block : Text) : Nat := (block.reverse.takeWhile (· != '\n')).count '^'

/-- The span goes on to the end of the source, on one line, and takes a return there. -/
def Span.TakesReturn (span : Span) (source : Text) : Prop :=
  ∃ front, source.slice? span.start span.stop = some (front ++ ['\r']) ∧ '\n' ∉ front ∧
    span.stop = source.byteLength

/-- A block shows the line of a diagnostic and under it a row of carets. They mark only characters
of the line, but for one caret behind it where the diagnostic takes a return. -/
structure Diagnostic.Underlines (diagnostic : Diagnostic) (file : SourceFile) (line block : Text) :
    Prop where
  shown : file.lineAt diagnostic.span.line = .ok line
  marks : diagnostic.Marks file line block
  inside : ¬diagnostic.span.TakesReturn file.content →
    diagnostic.span.column - 1 + caretCount block ≤ line.length
  behind : diagnostic.span.TakesReturn file.content →
    diagnostic.span.column - 1 + caretCount block = line.length + 1

theorem caretCount_append (rows : Text) {row : Text} (h : '\n' ∉ row) :
    caretCount (rows ++ '\n' :: row) = row.count '^' := by
  have hrow : ∀ c ∈ row.reverse, (c != '\n') = true := by
    intro c hc
    rw [bne_iff_ne]
    rintro rfl
    exact h (List.mem_reverse.mp hc)
  have hreverse : (rows ++ '\n' :: row).reverse = row.reverse ++ '\n' :: rows.reverse := by simp
  rw [caretCount, hreverse, List.takeWhile_append_of_pos hrow,
    List.takeWhile_cons_of_neg (by simp), List.append_nil, List.count_reverse]

theorem Snippet.count_caretRow (snippet : Snippet) :
    snippet.caretRow.count '^' = max 1 (snippet.stopColumn - snippet.startColumn) := by
  simp [caretRow, List.count_replicate]

namespace Diagnostic

variable {diagnostic : Diagnostic} {file : SourceFile} {line slice : Text}

theorem one_le_markWidth (diagnostic : Diagnostic) (file : SourceFile) :
    1 ≤ diagnostic.markWidth file := by
  unfold markWidth
  split
  · split
    · exact Nat.le_refl 1
    · exact Nat.le_max_left 1 _
  · exact Nat.le_refl 1

theorem caretCount_render (h : file.lineAt diagnostic.span.line = .ok line) :
    caretCount (diagnostic.render file) = diagnostic.markWidth file := by
  have hsnippet : diagnostic.snippet? file = some (diagnostic.snippetAt file line) := by
    rw [snippet?, h]
    rfl
  have hrow : '\n' ∉ (diagnostic.snippetAt file line).caretRow := by simp [Snippet.caretRow]
  have hwidth := diagnostic.one_le_markWidth file
  rw [render, hsnippet]
  show caretCount (_ ++ '\n' :: (Snippet.sourceRow _ ++ '\n' :: Snippet.caretRow _)) = _
  rw [← List.cons_append, ← List.append_assoc, caretCount_append _ hrow, Snippet.count_caretRow]
  show max 1 (diagnostic.span.column + diagnostic.markWidth file - diagnostic.span.column) = _
  omega

/-- Only an error that stays on its line is marked as a whole. -/
theorem markWidth_eq
    (h : file.content.slice? diagnostic.span.start diagnostic.span.stop = some slice)
    (hle : diagnostic.span.start ≤ diagnostic.span.stop) (hne : slice ≠ []) :
    diagnostic.markWidth file = if '\n' ∈ slice then 1 else slice.length := by
  have hspan : file.spanText diagnostic.span = .ok slice := by
    rw [SourceFile.spanText, if_neg (Nat.not_lt.mpr hle), h]
  have hlength := List.length_pos_iff.mpr hne
  simp only [markWidth, hspan, List.contains_iff_mem]
  split
  · rfl
  · omega

end Diagnostic

/-- An error that ends with a return, but is not only that, takes all the rest of the source. -/
theorem LexicalError.Covers.eq_nil_of_return {error : LexicalError} {slice after : Text}
    (h : error.Covers slice after) (hhead : slice.head? ≠ some '\r')
    (hlast : slice.getLast? = some '\r') : after = [] := by
  cases error with
  | illegalCharacter c =>
      obtain rfl : slice = [c] := h
      exact absurd hlast hhead
  | unmatchedCommentClose =>
      obtain rfl : slice = ['*', ')'] := h
      cases hlast
  | unterminatedString =>
      obtain ⟨pieces, -, rfl⟩ := h
      rw [← List.cons_append, List.getLast?_concat] at hlast
      cases hlast
  | stringTooLong | stringContainsNull =>
      obtain ⟨pieces, -, rfl | hopen⟩ := h
      · rw [← List.cons_append, List.getLast?_concat] at hlast
        cases hlast
      · exact hopen.1
  | endOfInputInString =>
      obtain ⟨pieces, -, hopen⟩ := h
      exact hopen.1
  | endOfInputInComment => exact h.1

/-- A piece of text without a newline stays in front of the line break. -/
theorem Text.prefix_of_newline_notMem {slice after line back : Text}
    (h : slice ++ after = line ++ back) (hslice : '\n' ∉ slice)
    (hback : back = [] ∨ back.head? = some '\n') : slice <+: line := by
  rcases List.append_eq_append_iff.mp h with ⟨rest, rfl, -⟩ | ⟨rest, rfl, rfl⟩
  · exact List.prefix_append slice rest
  · cases rest with
    | nil => exact ⟨[], by simp⟩
    | cons c rest =>
        rcases hback with hback | hback
        · cases hback
        · obtain rfl : c = '\n' := Option.some.inj hback
          simp at hslice

namespace SourceFile

/-- Of a line that ends with a return, that return is not shown. -/
theorem length_stripReturn_of_return (front : Text) {slice : Text}
    (h : slice.getLast? = some '\r') :
    (stripReturn (front ++ slice)).length + 1 = front.length + slice.length := by
  obtain ⟨init, rfl⟩ := List.getLast?_eq_some_iff.mp h
  rw [← List.append_assoc, stripReturn, if_pos List.getLast?_concat, List.dropLast_concat]
  simp [Nat.add_assoc]

/-- All of a line is shown up to a character that is no return. -/
theorem le_length_stripReturn (front : Text) {slice : Text} (rest : Text) (hne : slice ≠ [])
    (h : slice.getLast? ≠ some '\r') :
    front.length + slice.length ≤ (stripReturn (front ++ (slice ++ rest))).length := by
  obtain ⟨init, c, rfl⟩ := (List.eq_nil_or_concat' slice).resolve_left hne
  have hc : c ≠ '\r' := by simpa using h
  have hline : front ++ (init ++ [c] ++ rest) = (front ++ init) ++ c :: rest := by simp
  obtain ⟨shown, hshown⟩ := exists_stripReturn_eq (front ++ init) hc rest
  rw [hline, hshown]
  simp only [List.length_append, List.length_cons, List.length_nil]
  omega

end SourceFile

/-- The room that a line as it is shown has for the carets under `slice`, which starts behind `part`
of the line. -/
private theorem carets_le_length (part : Text) {tail slice after back : Text} {c : Char}
    (hsplit : slice ++ after = (c :: tail) ++ back) (hback : back = [] ∨ back.head? = some '\n')
    (hc : c ≠ '\r') (hne : slice ≠ []) (hopen : slice.getLast? = some '\r' → after = []) :
    ('\n' ∉ slice ∧ slice.getLast? = some '\r' →
      part.length + slice.length = (SourceFile.stripReturn (part ++ c :: tail)).length + 1) ∧
    (¬('\n' ∉ slice ∧ slice.getLast? = some '\r') →
      part.length + (if '\n' ∈ slice then 1 else slice.length) ≤
        (SourceFile.stripReturn (part ++ c :: tail)).length) := by
  by_cases hbreak : '\n' ∈ slice
  · rw [if_pos hbreak]
    refine ⟨fun h => absurd hbreak h.1, fun _ => ?_⟩
    have hlast : [c].getLast? ≠ some '\r' := by simpa using hc
    exact SourceFile.le_length_stripReturn part tail (List.cons_ne_nil c []) hlast
  · obtain ⟨rest, hrest⟩ := Text.prefix_of_newline_notMem hsplit hbreak hback
    rw [if_neg hbreak, ← hrest]
    by_cases hlast : slice.getLast? = some '\r'
    · -- The error takes all the rest of the source, so the line ends with it.
      obtain rfl : rest = [] := by
        rw [hopen hlast, ← hrest, List.append_assoc] at hsplit
        exact (List.append_eq_nil_iff.mp (List.append_cancel_left hsplit).symm).1
      rw [List.append_nil]
      refine ⟨fun _ => ?_, fun h => absurd ⟨hbreak, hlast⟩ h⟩
      exact (SourceFile.length_stripReturn_of_return part hlast).symm
    · refine ⟨fun h => absurd h.2 hlast, fun _ => ?_⟩
      exact SourceFile.le_length_stripReturn part rest hne hlast

/-- A span takes a return if it covers a piece of one line that ends with a return and with the
source. -/
private theorem Span.takesReturn_iff {span : Span} {before slice after : Text}
    (hcut : Text.slice? (before ++ (slice ++ after)) span.start span.stop = some slice)
    (hstop : span.stop = before.byteLength + slice.byteLength)
    (hopen : slice.getLast? = some '\r' → after = []) :
    span.TakesReturn (before ++ (slice ++ after)) ↔
      '\n' ∉ slice ∧ slice.getLast? = some '\r' := by
  constructor
  · rintro ⟨front, hfront, hbreak, -⟩
    obtain rfl : slice = front ++ ['\r'] := Option.some.inj (hcut.symm.trans hfront)
    exact ⟨by simpa using hbreak, List.getLast?_concat⟩
  · rintro ⟨hbreak, hlast⟩
    obtain ⟨front, rfl⟩ := List.getLast?_eq_some_iff.mp hlast
    obtain rfl := hopen hlast
    refine ⟨front, hcut, fun hmem => hbreak (List.mem_append_left _ hmem), ?_⟩
    rw [hstop, List.append_nil, Text.byteLength_append before]

/-- The carets of an error end inside its line, or one behind it if the error takes a return. -/
theorem Diagnostic.exists_underlines (name : Text) {source : Text} {config : LexerConfig}
    {id : FileId} {located : LocatedToken} {error : LexicalError}
    (h : Lexer.HasPlace config id Position.start source located)
    (htok : located.token = .illegal error) {diagnostic : Diagnostic}
    (hspan : diagnostic.span = located.span) :
    ∃ line, diagnostic.Underlines ⟨name, source⟩ line (diagnostic.render ⟨name, source⟩) := by
  obtain ⟨before, slice, after, rfl, hfirst, hstart, hstop, hnumber, hcolumn, hcut⟩ :=
    h.exists_slice
  have hcovers : error.Covers slice after := by
    have hspells := Lexeme.spells_of_first hfirst
    rwa [htok] at hspells
  obtain ⟨c, rest, rfl, hbreak, hreturn⟩ := Lexeme.exists_head_of_token hfirst
  obtain ⟨front, part, tail, back, -, hahead, hwhole, hline, hpart, hshown⟩ :=
    Position.exists_line name before hbreak (rest ++ after)
  have hopen : (c :: rest).getLast? = some '\r' → after = [] :=
    hcovers.eq_nil_of_return (by simpa using hreturn)
  have hsplit : (c :: rest) ++ after = (c :: tail) ++ back := congrArg (c :: ·) hahead
  have hcarets := carets_le_length part hsplit hwhole.stops hreturn (List.cons_ne_nil c rest) hopen
  have hwidth : diagnostic.markWidth ⟨name, before ++ (c :: rest ++ after)⟩ =
      if '\n' ∈ c :: rest then 1 else (c :: rest).length := by
    rw [← hspan] at hcut hstart hstop
    exact Diagnostic.markWidth_eq hcut (by omega) (List.cons_ne_nil c rest)
  have htakes := Span.takesReturn_iff hcut hstop hopen
  have hshown : SourceFile.lineAt ⟨name, before ++ (c :: rest ++ after)⟩ diagnostic.span.line =
      .ok (SourceFile.stripReturn (part ++ c :: tail)) := by
    rw [hspan, hnumber, hline]
    exact hshown
  have hcolumn : diagnostic.span.column - 1 = part.length := by
    rw [hspan, hcolumn, hpart, Nat.add_sub_cancel]
  have hunbroken : '\n' ∉ SourceFile.stripReturn (part ++ c :: tail) :=
    fun hmem => hwhole.unbroken (SourceFile.mem_of_mem_stripReturn hmem)
  rw [← hspan] at htakes
  refine ⟨_, hshown, marks_of_lineAt hshown hunbroken, ?_, ?_⟩
  · intro hinside
    rw [caretCount_render hshown, hwidth, hcolumn]
    exact hcarets.2 (mt htakes.mpr hinside)
  · intro hreturn
    have hreturn := htakes.mp hreturn
    rw [caretCount_render hshown, hwidth, hcolumn, if_neg hreturn.1]
    exact hcarets.1 hreturn

namespace Command

/-- Whatever is checked, the carets under an error end inside the line that is shown, and one
character behind it exactly for an error that takes a return at the end of the source. Lines and
columns are natural numbers here. In counters of 32 bits they fit for sources of fewer than
`2 ^ 32 - 1` characters only, so that longer ones are out of scope. -/
theorem checkSource_carets_in_line (command : Check) (name source : Text) {report : CheckReport}
    (h : command.checkSource name source = .ok report) :
    ∃ options, lexerOptions command.config command.overrides = .ok options ∧
      List.Forall₂
        (fun diagnostic block => ∃ line, diagnostic.Underlines ⟨name, source⟩ line block)
        (CoolLexer.scan source options).2.toList report.diagnostics := by
  cases hoptions : lexerOptions command.config command.overrides with
  | error failure =>
      rw [Check.checkSource, hoptions] at h
      cases h
  | ok options =>
      rw [Check.checkSource_of_options hoptions] at h
      obtain rfl := Except.ok.inj h
      refine ⟨options, rfl, ?_⟩
      rw [List.forall₂_map_right_iff, List.forall₂_same]
      intro diagnostic hmem
      obtain ⟨located, error, hplace, htok, rfl⟩ := Lexer.exists_hasPlace_of_mem_log hmem
      exact Diagnostic.exists_underlines name hplace htok rfl

private theorem toList_log_open_comment : (CoolLexer.scan "#\n (*é\r".toList {}).2.toList =
    [⟨"Illegal character #".toList, ⟨0, 1, 1, 1, 0⟩, some (.error 1001)⟩,
      ⟨"EOF in comment".toList, ⟨3, 8, 2, 2, 0⟩, some (.error 1007)⟩] := by
  have hsign : Lexeme.first {} "#\n (*é\r".toList =
      .token (.illegal (.illegalCharacter '#')) 1 := by decide
  have hbreak : Lexeme.first {} "\n (*é\r".toList = .trivia 2 := by decide
  have hcomment : Lexeme.first {} "(*é\r".toList =
      .token (.illegal .endOfInputInComment) 4 := by decide
  rw [Lexer.toList_log_scan, Lexer.toList_scan, Lexer.locate_token 0 _ hsign]
  change List.filterMap _ (_ :: Lexer.locate _ _ _ "\n (*é\r".toList) = _
  rw [Lexer.locate_trivia 0 _ hbreak]
  change List.filterMap _ (_ :: Lexer.locate _ _ _ "(*é\r".toList) = _
  rw [Lexer.locate_token 0 _ hcomment]
  change List.filterMap _ (_ :: _ :: Lexer.locate _ _ _ []) = _
  rw [Lexer.locate_endOfText 0 _ rfl]
  rfl

/-- An error inside its line, and an open comment that ends with a return. -/
theorem checkSource_carets_in_line_of_open_comment :
    let source := "#\n (*é\r".toList
    let report : CheckReport := ⟨['f'],
      ["f:1:1: error[E1001]: Illegal character #\n  1 | #\n    | ^".toList,
        "f:2:2: error[E1007]: EOF in comment\n  2 |  (*é\n    |  ^^^^".toList]⟩
    ({} : Check).checkSource ['f'] source = .ok report ∧
      ∃ options, lexerOptions {} {} = .ok options ∧
        List.Forall₂
          (fun diagnostic block => ∃ line, diagnostic.Underlines ⟨['f'], source⟩ line block)
          (CoolLexer.scan source options).2.toList report.diagnostics := by
  intro source report
  have hreport : ({} : Check).checkSource ['f'] source = .ok report := by
    have hoptions : lexerOptions ({} : Check).config ({} : Check).overrides = .ok {} := rfl
    rw [Check.checkSource_of_options hoptions, toList_log_open_comment]
    decide
  exact ⟨hreport, checkSource_carets_in_line {} ['f'] source hreport⟩

/-- A quote and a return are two characters, of which only the quote is shown. -/
theorem checkSource_caret_behind_line :
    (CoolLexer.scan "\"\r".toList {}).2.toList =
        [⟨"EOF in string constant".toList, ⟨0, 2, 1, 1, 0⟩, some (.error 1005)⟩] ∧
      ({} : Check).checkSource ['f'] "\"\r".toList = .ok ⟨['f'],
        ["f:1:1: error[E1005]: EOF in string constant\n  1 | \"\n    | ^^".toList]⟩ ∧
      SourceFile.lineAt ⟨['f'], "\"\r".toList⟩ 1 = .ok ['"'] ∧
      ¬1 - 1 + caretCount "f:1:1: error[E1005]: EOF in string constant\n  1 | \"\n    | ^^".toList ≤
        ['"'].length := by
  have hopen : Lexeme.first {} "\"\r".toList = .token (.illegal .endOfInputInString) 2 := by decide
  have hlog : (CoolLexer.scan "\"\r".toList {}).2.toList =
      [⟨"EOF in string constant".toList, ⟨0, 2, 1, 1, 0⟩, some (.error 1005)⟩] := by
    rw [Lexer.toList_log_scan, Lexer.toList_scan, Lexer.locate_token 0 _ hopen]
    change List.filterMap _ (_ :: Lexer.locate _ _ _ []) = _
    rw [Lexer.locate_endOfText 0 _ rfl]
    rfl
  refine ⟨hlog, ?_, by decide, by decide⟩
  have hoptions : lexerOptions ({} : Check).config ({} : Check).overrides = .ok {} := rfl
  rw [Check.checkSource_of_options hoptions, hlog]
  decide

end Command

end CoolLexer
