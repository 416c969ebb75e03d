import CoolLexer.Lexer.Reader
import CoolLexer.Proofs.Cursor.Motion
import CoolLexer.Proofs.Lexer.Pull

/-!
# Calls in any order

The readers of single lexemes may be called wherever the cursor stands, between the calls that read
on by one token. No order of calls brings the lexer to a place between bytes of a character, loses
count of lines and columns, or reports an error that no pulled token carries.
-/

namespace CoolLexer

/-- The calls of a lexer that move its cursor. -/
inductive Call where
  | pull (pull : Pull)
  | skipBlockComment
  | word
  | digits
  | string
  | less
  | equal
  | star

/-- What such a call returns. -/
inductive Answer where
  | pulled (pulled : Pulled)
  | read (token : Token)
  | skipped (result : Except LexicalError Unit)

/-- The error of the illegal token that has been pulled, if it is one. -/
def Pulled.error? : Pulled → Option LexicalError
  | token tok => tok.error?
  | located found | next (some found) => found.token.error?
  | next none => none

/-- The error of the illegal token that a call has pulled. The readers of single lexemes pull
nothing. -/
def Answer.error? : Answer → Option LexicalError
  | pulled answer => answer.error?
  | read _ | skipped _ => none

namespace Lexer

def call (lexer : Lexer) : Call → Answer × Lexer
  | .pull pull => (.pulled (lexer.pull pull).1, (lexer.pull pull).2)
  | .skipBlockComment => (.skipped lexer.skipBlockComment.1, lexer.skipBlockComment.2)
  | .word => (.read lexer.readWord.1, lexer.readWord.2)
  | .digits => (.read lexer.readDigits.1, lexer.readDigits.2)
  | .string => (.read lexer.readString.1, lexer.readString.2)
  | .less => (.read lexer.readLess.1, lexer.readLess.2)
  | .equal => (.read lexer.readEqual.1, lexer.readEqual.2)
  | .star => (.read lexer.readStar.1, lexer.readStar.2)

/-- A lexer on `source` that stands at a place of it, as does the start of its last token, and that
has reported the errors of the tokens pulled from it, and no others, since its log was `log`. -/
structure Consistent (source : Text) (log : DiagnosticLog) (answers : List Answer)
    (lexer : Lexer) : Prop where
  place : ∃ passed, source = passed ++ lexer.cursor.rest ∧
    lexer.position.offset = passed.byteLength ∧
    source.slice? lexer.position.offset source.byteLength = some lexer.cursor.rest ∧
    lexer.position.line = 1 + passed.count '\n' ∧
    lexer.position.column = 1 + (passed.reverse.takeWhile (· != '\n')).length
  span : lexer.tokenSpan.start ≤ lexer.tokenSpan.stop ∧
    lexer.tokenSpan.stop = lexer.position.offset
  halted : lexer.halted = true → lexer.position.offset = source.byteLength
  reported : ∃ added, lexer.log.toList = log.toList ++ added ∧
    added.map (fun diagnostic => (diagnostic.message, diagnostic.code)) =
      (answers.filterMap Answer.error?).map fun error => (error.message, some error.code)

theorem skip_skip (lexer : Lexer) (m n : Nat) :
    (lexer.skip m).skip n = lexer.skip (m + n) :=
  congrArg (fun cursor => { lexer with cursor }) (lexer.cursor.skip_skip m n)

private theorem readTail_eq_skip (lexer : Lexer) (tail : Text → Token × Nat) :
    ∃ n, (lexer.readTail tail).2 = lexer.skip n :=
  ⟨_, lexer.skip_skip 1 _⟩

private theorem readRun_eq_skip (lexer : Lexer) (p : Char → Bool) (token : Text → Token) :
    ∃ n, (lexer.readRun p token).2 = lexer.skip n :=
  ⟨_, congrArg (fun cursor => { lexer with cursor }) (lexer.cursor.eatWhile_eq_skip p)⟩

private theorem skipBlockComment_eq_skip (lexer : Lexer) :
    ∃ n, lexer.skipBlockComment.2 = lexer.skip n := by
  unfold skipBlockComment
  dsimp only
  split
  · exact ⟨_, lexer.skip_skip 2 _⟩
  · exact ⟨_, lexer.skip_skip 2 _⟩

/-- What a call does: it pulls a token, or it skips characters and reports nothing. -/
private theorem call_cases (lexer : Lexer) (call : Call) :
    (∃ pull, lexer.call call = (.pulled (lexer.pull pull).1, (lexer.pull pull).2)) ∨
    ∃ answer n, lexer.call call = (answer, lexer.skip n) ∧ answer.error? = none := by
  have hread {answer : Answer} {after : Lexer} (hanswer : answer.error? = none)
      (hafter : ∃ n, after = lexer.skip n) :
      ∃ found n, (answer, after) = (found, lexer.skip n) ∧ found.error? = none := by
    obtain ⟨n, rfl⟩ := hafter
    exact ⟨answer, n, rfl, hanswer⟩
  cases call with
  | pull pull => exact .inl ⟨pull, rfl⟩
  | skipBlockComment => exact .inr (hread rfl lexer.skipBlockComment_eq_skip)
  | word => exact .inr (hread rfl (lexer.readRun_eq_skip _ _))
  | digits => exact .inr (hread rfl (lexer.readRun_eq_skip _ _))
  | string => exact .inr (hread rfl (lexer.readTail_eq_skip _))
  | less => exact .inr (hread rfl (lexer.readTail_eq_skip _))
  | equal => exact .inr (hread rfl (lexer.readTail_eq_skip _))
  | star => exact .inr (hread rfl (lexer.readTail_eq_skip _))

private theorem toToken_eq_skip (config : LexerConfig) (cursor : Cursor) :
    ∃ n, (toToken config cursor).1 = cursor.skip n := by
  fun_induction toToken config cursor with
  | case1 => exact ⟨0, rfl⟩
  | case2 => exact ⟨0, rfl⟩
  | case3 cursor n _ ih =>
      obtain ⟨m, hm⟩ := ih
      exact ⟨n + m, hm.trans (cursor.skip_skip n m)⟩

theorem nextLocated_eq_skip (lexer : Lexer) (h : lexer.HaltsAtEnd) :
    ∃ m n, lexer.nextLocated.2.tokenStart = (lexer.cursor.skip m).position ∧
      lexer.nextLocated.2.cursor = (lexer.cursor.skip m).skip n := by
  obtain ⟨m, hm⟩ := toToken_eq_skip lexer.config lexer.cursor
  have hcursor : lexer.toNextToken.cursor = lexer.cursor.skip m := hm
  have hstart : lexer.toNextToken.tokenStart = (lexer.cursor.skip m).position :=
    congrArg Cursor.position hm
  rcases nextLocated_cases lexer h with ⟨-, hnext⟩ | ⟨tok, n, -, hnext⟩
  · rw [hnext]
    exact ⟨m, 0, hstart, hcursor⟩
  · have hkeeps := reportToken_keeps (lexer.toNextToken.skip n) tok
    rw [hnext]
    refine ⟨m, n, hkeeps.2.2.1.trans hstart, ?_⟩
    rw [cursor_reportToken, ← hcursor]
    rfl

private theorem map_diagnostic?_of_returns {answer : Pulled} {located : LocatedToken}
    (h : answer.Returns located) :
    located.diagnostic?.toList.map (fun diagnostic => (diagnostic.message, diagnostic.code)) =
      ([Answer.pulled answer].filterMap Answer.error?).map fun error =>
        (error.message, some error.code) := by
  have herror : answer.error? = located.token.error? := by
    cases answer with
    | token tok => exact congrArg Token.error? h
    | located found => exact congrArg (·.token.error?) h
    | next found =>
        cases found with
        | some found => exact congrArg (·.token.error?) h
        | none => exact absurd h id
  cases htok : located.token.error? <;>
    simp [LocatedToken.diagnostic?, Answer.error?, herror, htok]

private theorem cursor_call (lexer : Lexer) (h : lexer.HaltsAtEnd) (call : Call) :
    ∃ n, (lexer.call call).2.cursor = lexer.cursor.skip n := by
  rcases call_cases lexer call with ⟨pull, hcall⟩ | ⟨answer, n, hcall, -⟩
  · rw [hcall]
    rcases pull_cases lexer h pull with ⟨-, hpull⟩ | ⟨answer, finished, hpull, -, -⟩
    · rw [hpull]
      exact ⟨0, rfl⟩
    · obtain ⟨m, n, -, hcursor⟩ := nextLocated_eq_skip lexer h
      rw [hpull]
      exact ⟨m + n, hcursor.trans (lexer.cursor.skip_skip m n)⟩
  · rw [hcall]
    exact ⟨n, rfl⟩

private theorem haltsAtEnd_skip {lexer : Lexer} (h : lexer.HaltsAtEnd) (n : Nat) :
    (lexer.skip n).HaltsAtEnd := by
  intro hhalted
  have hrest : lexer.cursor.rest = [] := h hhalted
  change lexer.cursor.rest.drop n = []
  rw [hrest, List.drop_nil]

private theorem haltsAtEnd_call (lexer : Lexer) (h : lexer.HaltsAtEnd) (call : Call) :
    (lexer.call call).2.HaltsAtEnd := by
  rcases call_cases lexer call with ⟨pull, hcall⟩ | ⟨answer, n, hcall, -⟩
  · rw [hcall]
    rcases pull_cases lexer h pull with ⟨-, hpull⟩ | ⟨answer, finished, hpull, -, -⟩
    · rw [hpull]
      exact h
    · rw [hpull]
      exact haltsAtEnd_nextLocated lexer h
  · rw [hcall]
    exact haltsAtEnd_skip h n

/-- However the calls of a lexer are mixed, a halted lexer stands at the end of its source. -/
theorem haltsAtEnd_each_call (source : Text) (config : LexerConfig) (file : FileId)
    (log : DiagnosticLog) (calls : List Call) :
    ((start source config file log).each call calls).2.HaltsAtEnd :=
  @each_induction Call Answer call (fun _ lexer => lexer.HaltsAtEnd)
    (fun _ lexer next h => haltsAtEnd_call lexer h next) [] _
    (haltsAtEnd_start source config file log) calls

/-- The state of a lexer on `source` between calls. -/
private structure Keeps (source : Text) (log : DiagnosticLog) (answers : List Answer)
    (lexer : Lexer) : Prop where
  source : lexer.cursor.source = source
  passed : ∃ passed, lexer.cursor.HasPassed passed
  ordered : lexer.tokenStart.offset ≤ lexer.position.offset
  halts : lexer.HaltsAtEnd
  reported : ∃ added, lexer.log.toList = log.toList ++ added ∧
    added.map (fun diagnostic => (diagnostic.message, diagnostic.code)) =
      (answers.filterMap Answer.error?).map fun error => (error.message, some error.code)

namespace Keeps

variable {source : Text} {log : DiagnosticLog} {answers : List Answer} {lexer : Lexer}

private theorem skip (h : Keeps source log answers lexer) {answer : Answer}
    (hanswer : answer.error? = none) (n : Nat) :
    Keeps source log (answers ++ [answer]) (lexer.skip n) where
  source := h.source
  passed := by
    obtain ⟨passed, hpassed⟩ := h.passed
    exact ⟨_, hpassed.skip n⟩
  ordered := Nat.le_trans h.ordered (lexer.cursor.offset_le_skip n)
  halts := haltsAtEnd_skip h.halts n
  reported := by
    have hsame : (answers ++ [answer]).filterMap Answer.error? =
        answers.filterMap Answer.error? := by simp [hanswer]
    rw [hsame]
    exact h.reported

private theorem pull (h : Keeps source log answers lexer) {answer : Pulled} {finished : Bool}
    (hreturns : answer.Returns lexer.nextLocated.1) :
    Keeps source log (answers ++ [.pulled answer]) { lexer.nextLocated.2 with finished } := by
  obtain ⟨m, n, hstart, hcursor⟩ := nextLocated_eq_skip lexer h.halts
  exact {
    source := by
      change lexer.nextLocated.2.cursor.source = source
      rw [hcursor]
      exact h.source
    passed := by
      obtain ⟨passed, hpassed⟩ := h.passed
      have hnext := (hpassed.skip m).skip n
      rw [← hcursor] at hnext
      exact ⟨_, hnext⟩
    ordered := by
      change lexer.nextLocated.2.tokenStart.offset ≤ lexer.nextLocated.2.cursor.position.offset
      rw [hstart, hcursor]
      exact (lexer.cursor.skip m).offset_le_skip n
    halts := haltsAtEnd_nextLocated lexer h.halts
    reported := by
      obtain ⟨added, hlog, hadded⟩ := h.reported
      have hnext := log_nextLocated lexer h.halts
      rw [hlog, List.append_assoc] at hnext
      refine ⟨_, hnext, ?_⟩
      rw [List.map_append, hadded, List.filterMap_append, List.map_append,
        map_diagnostic?_of_returns hreturns] }

private theorem call (h : Keeps source log answers lexer) (call : Call) :
    Keeps source log (answers ++ [(lexer.call call).1]) (lexer.call call).2 := by
  rcases call_cases lexer call with ⟨pull, hcall⟩ | ⟨answer, n, hcall, hanswer⟩
  · rw [hcall]
    rcases pull_cases lexer h.halts pull with ⟨-, hpull⟩ | ⟨answer, finished, hpull, hreturns, -⟩
    · rw [hpull]
      exact h.skip rfl 0
    · rw [hpull]
      exact h.pull hreturns
  · rw [hcall]
    exact h.skip hanswer n

private theorem moves (h : Keeps source log answers lexer) (hsize : source.length < 2 ^ 32 - 1)
    (call : Call) : ∃ moved, lexer.cursor.Moves moved (lexer.call call).2.cursor := by
  obtain ⟨passed, hpassed⟩ := h.passed
  obtain ⟨n, hcursor⟩ := cursor_call lexer h.halts call
  rw [hcursor]
  exact ⟨_, hpassed.moves_skip (h.source ▸ hsize) n⟩

private theorem consistent (h : Keeps source log answers lexer) :
    Consistent source log answers lexer := by
  obtain ⟨passed, hpassed⟩ := h.passed
  have hsource : source = passed ++ lexer.cursor.rest := h.source.symm.trans hpassed.source
  have hposition : lexer.position = Position.start.advanceBy passed := hpassed.position
  have hoffset : lexer.position.offset = passed.byteLength := by
    rw [hposition, Position.offset_advanceBy_start]
  exact {
    place := by
      refine ⟨passed, hsource, hoffset, ?_, ?_, ?_⟩
      · rw [hoffset, hsource]
        exact Text.slice?_append_end passed lexer.cursor.rest
      · rw [hposition]
        exact Position.line_advanceBy _ _
      · rw [hposition, Position.column_advanceBy_start]
    span := ⟨h.ordered, rfl⟩
    halted := by
      intro hhalted
      rw [hsource, h.halts hhalted, List.append_nil, hoffset]
    reported := h.reported }

end Keeps

end Lexer

end CoolLexer
