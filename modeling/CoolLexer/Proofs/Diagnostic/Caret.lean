import CoolLexer.Proofs.Command.Agreement
import CoolLexer.Proofs.Cursor.Motion
import CoolLexer.Proofs.Source.Line
import Mathlib.Data.List.Forall2

/-!
# Carets under the right character

A scan counts lines and columns as it goes, and the display of an error finds the line anew in the
source and pads its number. Both come to the same character: the line shown holds the start of the
error at its column, and the first caret stands under it, however wide the line number is.
-/

namespace CoolLexer

/-- A span starts in `line`, which is shown under its number, at the character at its column. -/
structure Span.StartsIn (span : Span) (file : SourceFile) (line : Text) : Prop where
  shown : file.lineAt span.line = .ok line
  unbroken : '\n' ∉ line
  inside : 1 ≤ span.column ∧ span.column ≤ line.length
  offset : ∃ start, (SourceFile.lineStarts file.content)[span.line - 1]? = some start ∧
    start + Text.byteLength (line.take (span.column - 1)) = span.start
  character : ∃ slice, file.content.slice? span.start span.stop = some slice ∧
    slice.head? = (line.drop (span.column - 1)).head?
  fits : span.line < 2 ^ 32 ∧ span.column < 2 ^ 32

/-- A block of a header, a row with a line of source and a row of carets, the first of them under
the character at the column of the diagnostic. -/
def Diagnostic.Marks (diagnostic : Diagnostic) (file : SourceFile) (line block : Text) : Prop :=
  ∃ (gutter lead : Text) (n : Nat),
    gutter = (Text.ofNat diagnostic.span.line).padLeft 3 ++ " | ".toList ∧
    block = diagnostic.locatedHeader file ++ '\n' :: (gutter ++ line) ++
      '\n' :: (lead ++ List.replicate (n + 1) '^') ∧
    '\n' ∉ gutter ++ line ∧ '^' ∉ lead ∧ '\n' ∉ lead ∧
    lead.length = gutter.length + (diagnostic.span.column - 1)

/-- The snippet for a line that is shown under the number of a diagnostic. -/
def Diagnostic.snippetAt (diagnostic : Diagnostic) (file : SourceFile) (line : Text) : Snippet where
  line
  number := diagnostic.span.line
  startColumn := diagnostic.span.column
  stopColumn := diagnostic.span.column + diagnostic.markWidth file

/-- A token starts with a character of its line, which is not one of those that a line ends with. -/
theorem Lexeme.exists_head_of_token {config : LexerConfig} {slice after : Text} {tok : Token}
    (h : first config (slice ++ after) = .token tok slice.length) :
    ∃ c tail, slice = c :: tail ∧ c ≠ '\n' ∧ c ≠ '\r' := by
  obtain ⟨hpos, -, -⟩ := first_eq_token h
  obtain ⟨c, tail, rfl⟩ := List.exists_cons_of_length_pos hpos
  have hblank : isBlank c ≠ true := by
    intro hblank
    rw [List.cons_append, first_blank config hblank] at h
    cases h
  refine ⟨c, tail, rfl, ?_, ?_⟩
  · rintro rfl
    exact hblank rfl
  · rintro rfl
    exact hblank rfl

/-- A token covers a piece of the source, which its span cuts out. -/
theorem Lexer.HasPlace.exists_slice {config : LexerConfig} {id : FileId} {source : Text}
    {located : LocatedToken} (h : HasPlace config id Position.start source located) :
    ∃ before slice after, source = before ++ (slice ++ after) ∧
      Lexeme.first config (slice ++ after) = .token located.token slice.length ∧
      located.span.start = before.byteLength ∧
      located.span.stop = before.byteLength + slice.byteLength ∧
      located.span.line = (Position.start.advanceBy before).line ∧
      located.span.column = (Position.start.advanceBy before).column ∧
      source.slice? located.span.start located.span.stop = some slice := by
  obtain ⟨before, rest, n, rfl, htoken, hspan⟩ := h
  have hle := (Lexeme.first_eq_token htoken).2.1
  have hstart : located.span.start = before.byteLength := by
    rw [hspan]
    exact Position.offset_advanceBy_start before
  have hstop : located.span.stop = before.byteLength + Text.byteLength (rest.take n) := by
    rw [hspan, ← Text.byteLength_append]
    exact Position.offset_advanceBy_start (before ++ rest.take n)
  have hcut := Text.slice?_append before (rest.take n) (rest.drop n)
  rw [List.take_append_drop, ← hstop, ← hstart] at hcut
  refine ⟨before, rest.take n, rest.drop n, ?_, ?_, hstart, hstop, ?_, ?_, hcut⟩
  · rw [List.take_append_drop]
  · rw [List.take_append_drop, List.length_take_of_le hle]
    exact htoken
  · rw [hspan]
    rfl
  · rw [hspan]
    rfl

/-- The line and the column of a token are those of its first character in the source. -/
theorem exists_startsIn (name : Text) {source : Text} {config : LexerConfig} {id : FileId}
    {located : LocatedToken} (h : Lexer.HasPlace config id Position.start source located)
    (hsize : source.length < 2 ^ 32 - 1) :
    ∃ line, located.span.StartsIn ⟨name, source⟩ line := by
  obtain ⟨before, slice, after, rfl, htoken, hstart, -, hnumber, hcolumn, hcut⟩ := h.exists_slice
  have hle : before.length ≤ (before ++ (slice ++ after)).length := by simp
  have hfits : located.span.line < 2 ^ 32 ∧ located.span.column < 2 ^ 32 := by
    rw [hnumber, hcolumn]
    exact Position.fits_advanceBy_start (Nat.lt_of_le_of_lt hle hsize)
  obtain ⟨c, rest, rfl, hbreak, hreturn⟩ := Lexeme.exists_head_of_token htoken
  obtain ⟨front, part, tail, back, hbefore, -, hwhole, hline, hpart, hshown⟩ :=
    Position.exists_line name before hbreak (rest ++ after)
  obtain ⟨shown, hstrip⟩ := SourceFile.exists_stripReturn_eq part hreturn tail
  rw [← hnumber] at hline
  rw [← hcolumn] at hpart
  refine ⟨part ++ c :: shown, ?_, ?_, ?_, ?_, ⟨_, hcut, ?_⟩, hfits⟩
  · rw [hline, ← hstrip]
    exact hshown
  · intro hmem
    rw [← hstrip] at hmem
    exact hwhole.unbroken (SourceFile.mem_of_mem_stripReturn hmem)
  · simp [hpart]
  · refine ⟨front.byteLength, ?_, ?_⟩
    · rw [hline, Nat.add_sub_cancel, hbefore, List.append_assoc]
      exact SourceFile.getElem?_lineStarts hwhole.starts _
    · rw [hpart, Nat.add_sub_cancel, List.take_left, hstart, hbefore, Text.byteLength_append]
  · rw [hpart]
    simp

namespace Snippet

variable (snippet : Snippet)

theorem length_padLeft_number :
    ((Text.ofNat snippet.number).padLeft 3).length = snippet.gutterWidth :=
  List.length_leftpad

theorem sourceRow_eq :
    snippet.sourceRow = (Text.ofNat snippet.number).padLeft 3 ++ " | ".toList ++ snippet.line := by
  have hwidth (k : Nat) : max 3 k - k = 3 - k := by omega
  rw [sourceRow, gutterWidth, Text.padLeft, Text.padLeft, List.leftpad, List.leftpad, hwidth]

/-- What stands in front of the carets. -/
def lead : Text :=
  List.replicate snippet.gutterWidth ' ' ++ " | ".toList ++
    List.replicate (snippet.startColumn - 1) ' '

theorem caretRow_eq : ∃ n, snippet.caretRow = snippet.lead ++ List.replicate (n + 1) '^' := by
  refine ⟨max 1 (snippet.stopColumn - snippet.startColumn) - 1, ?_⟩
  rw [caretRow, lead, Nat.sub_add_cancel (Nat.le_max_left 1 _)]

end Snippet

/-- The row of carets is the row of source with blanks in place of what stands before the column. -/
theorem Diagnostic.marks_of_lineAt {diagnostic : Diagnostic} {file : SourceFile} {line : Text}
    (hshown : file.lineAt diagnostic.span.line = .ok line) (hunbroken : '\n' ∉ line) :
    diagnostic.Marks file line (diagnostic.render file) := by
  have hsnippet : diagnostic.snippet? file = some (diagnostic.snippetAt file line) := by
    rw [snippet?, hshown]
    rfl
  have hwidth : ((Text.ofNat diagnostic.span.line).padLeft 3).length =
      (diagnostic.snippetAt file line).gutterWidth :=
    (diagnostic.snippetAt file line).length_padLeft_number
  obtain ⟨n, hcarets⟩ := (diagnostic.snippetAt file line).caretRow_eq
  refine ⟨_, (diagnostic.snippetAt file line).lead, n, rfl, ?_, ?_, ?_, ?_, ?_⟩
  · rw [render, hsnippet]
    show _ ++ '\n' :: (Snippet.sourceRow _ ++ '\n' :: Snippet.caretRow _) = _
    rw [Snippet.sourceRow_eq, hcarets, ← List.cons_append, ← List.append_assoc]
    rfl
  · have hdigits : '\n' ∉ Text.ofNat diagnostic.span.line := by
      intro hmem
      cases Text.isDigit_of_mem_ofNat hmem
    simp [Text.padLeft, List.leftpad, hdigits, hunbroken]
  · simp [Snippet.lead]
  · simp [Snippet.lead]
  · rw [Snippet.lead, List.length_append, List.length_append, List.length_append,
      List.length_replicate, List.length_replicate, hwidth]
    rfl

theorem Diagnostic.marks_render {diagnostic : Diagnostic} {file : SourceFile} {line : Text}
    (h : diagnostic.span.StartsIn file line) :
    diagnostic.Marks file line (diagnostic.render file) :=
  marks_of_lineAt h.shown h.unbroken

namespace Command

/-- Whatever is checked, every error is shown with the line in which it starts, and the first caret
stands under the character at which it starts. -/
theorem checkSource_marks_starts (command : Check) (name source : Text)
    (hsize : source.length < 2 ^ 32 - 1) {report : CheckReport}
    (h : command.checkSource name source = .ok report) :
    ∃ options, lexerOptions command.config command.overrides = .ok options ∧
      List.Forall₂
        (fun diagnostic block => ∃ line, diagnostic.span.StartsIn ⟨name, source⟩ line ∧
          diagnostic.Marks ⟨name, source⟩ line block)
        (CoolLexer.scan source options).2.toList report.diagnostics := by
  cases hoptions : lexerOptions command.config command.overrides with
  | error failure =>
      rw [Check.checkSource, hoptions] at h
      cases h
  | ok options =>
      rw [Check.checkSource_of_options hoptions] at h
      obtain rfl := Except.ok.inj h
      refine ⟨options, rfl, ?_⟩
      rw [List.forall₂_map_right_iff, List.forall₂_same]
      intro diagnostic hmem
      rw [Lexer.toList_log_scan, Lexer.toList_scan] at hmem
      obtain ⟨located, hlocated, hdiagnostic⟩ := List.mem_filterMap.mp hmem
      have hplace : Lexer.HasPlace options 0 Position.start source located := by
        apply Lexer.hasPlace_of_mem_locate hlocated
        intro hend
        rw [LocatedToken.diagnostic?, hend] at hdiagnostic
        cases hdiagnostic
      obtain ⟨line, hline⟩ := exists_startsIn name hplace hsize
      obtain ⟨error, -, rfl⟩ := Option.map_eq_some_iff.mp hdiagnostic
      exact ⟨line, hline, Diagnostic.marks_render hline⟩

private theorem toList_log_returns : (CoolLexer.scan "é\r\n #\r".toList {}).2.toList =
    [⟨"Illegal character é".toList, ⟨0, 2, 1, 1, 0⟩, some (.error 1001)⟩,
      ⟨"Illegal character #".toList, ⟨5, 6, 2, 2, 0⟩, some (.error 1001)⟩] := by
  have hletter : Lexeme.first {} "é\r\n #\r".toList =
      .token (.illegal (.illegalCharacter 'é')) 1 := by decide
  have hbreak : Lexeme.first {} "\r\n #\r".toList = .trivia 3 := by decide
  have hsign : Lexeme.first {} "#\r".toList = .token (.illegal (.illegalCharacter '#')) 1 := by
    decide
  have hreturn : Lexeme.first {} "\r".toList = .trivia 1 := by decide
  rw [Lexer.toList_log_scan, Lexer.toList_scan, Lexer.locate_token 0 _ hletter]
  change List.filterMap _ (_ :: Lexer.locate _ _ _ "\r\n #\r".toList) = _
  rw [Lexer.locate_trivia 0 _ hbreak]
  change List.filterMap _ (_ :: Lexer.locate _ _ _ "#\r".toList) = _
  rw [Lexer.locate_token 0 _ hsign]
  change List.filterMap _ (_ :: _ :: Lexer.locate _ _ _ "\r".toList) = _
  rw [Lexer.locate_trivia 0 _ hreturn]
  change List.filterMap _ (_ :: _ :: Lexer.locate _ _ _ []) = _
  rw [Lexer.locate_endOfText 0 _ rfl]
  rfl

/-- A return in front of the line break, and one at the end of the source. -/
theorem checkSource_marks_starts_of_returns :
    let source := "é\r\n #\r".toList
    let report : CheckReport := ⟨['f'],
      ["f:1:1: error[E1001]: Illegal character é\n  1 | é\n    | ^".toList,
        "f:2:2: error[E1001]: Illegal character #\n  2 |  #\n    |  ^".toList]⟩
    source.length < 2 ^ 32 - 1 ∧ ({} : Check).checkSource ['f'] source = .ok report ∧
      ∃ options, lexerOptions {} {} = .ok options ∧
        List.Forall₂
          (fun diagnostic block => ∃ line, diagnostic.span.StartsIn ⟨['f'], source⟩ line ∧
            diagnostic.Marks ⟨['f'], source⟩ line block)
          (CoolLexer.scan source options).2.toList report.diagnostics := by
  intro source report
  have hsize : source.length < 2 ^ 32 - 1 := by decide
  have hreport : ({} : Check).checkSource ['f'] source = .ok report := by
    have hoptions : lexerOptions ({} : Check).config ({} : Check).overrides = .ok {} := rfl
    rw [Check.checkSource_of_options hoptions, toList_log_returns]
    decide
  exact ⟨hsize, hreport, checkSource_marks_starts {} ['f'] source hsize hreport⟩

end Command

end CoolLexer
