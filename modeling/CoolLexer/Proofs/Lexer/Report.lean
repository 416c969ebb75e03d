import CoolLexer.Proofs.Lexer.Located
import Mathlib.Data.List.Basic

/-!
# What a lexer reports

Reading an illegal token reports its error at the token's own span. Nothing else is reported, and
what has been reported before stays as it is.
-/

namespace CoolLexer

/-- The diagnostic that a token is reported with. -/
def LocatedToken.diagnostic? (located : LocatedToken) : Option Diagnostic :=
  located.token.error?.map fun error => ⟨error.message, located.span, some error.code⟩

theorem length_filterMap_diagnostic? (tokens : List LocatedToken) :
    (tokens.filterMap LocatedToken.diagnostic?).length = tokens.countP (·.token.isIllegal) := by
  rw [List.length_filterMap_eq_countP]
  apply List.countP_congr
  intro located _
  cases htok : located.token <;>
    simp [LocatedToken.diagnostic?, Token.error?, Token.isIllegal, htok]

namespace TokenStream

variable (stream : TokenStream)

theorem errorCount_eq : stream.errorCount = (stream.toList.filter (·.token.isIllegal)).length := by
  rw [errorCount, tokens, List.countP_map, List.countP_eq_length_filter]
  rfl

theorem hasErrors_eq_false_iff : stream.hasErrors = false ↔ stream.errorCount = 0 := by
  rw [hasErrors, errorCount, List.any_eq_false, List.countP_eq_zero]

private theorem map_diagnostic_errors :
    (stream.errors.map fun (error, located) =>
        (⟨error.message, located.span, some error.code⟩ : Diagnostic)) =
      stream.toList.filterMap LocatedToken.diagnostic? := by
  rw [errors, List.map_filterMap]
  apply List.filterMap_congr
  intro located _
  rw [LocatedToken.diagnostic?, Option.map_map]
  rfl

private theorem map_located_errors :
    stream.errors.map (·.2) = stream.toList.filter (·.token.isIllegal) := by
  rw [errors, List.map_filterMap, ← List.filterMap_eq_filter]
  apply List.filterMap_congr
  intro located _
  cases htok : located.token <;> simp [Token.error?, Token.isIllegal, Option.guard, htok]

private theorem token_of_mem_errors {error : LexicalError} {located : LocatedToken}
    (h : (error, located) ∈ stream.errors) : located.token = .illegal error := by
  obtain ⟨found, -, hfound⟩ := List.mem_filterMap.mp h
  obtain ⟨error', herror, hpair⟩ := Option.map_eq_some_iff.mp hfound
  obtain ⟨rfl, rfl⟩ := Prod.mk.inj hpair
  cases htok : found.token with
  | illegal e =>
      rw [htok] at herror
      exact congrArg Token.illegal (Option.some.inj herror)
  | _ =>
      rw [htok] at herror
      cases herror

end TokenStream

namespace Lexer

private theorem log_reportToken (lexer : Lexer) (tok : Token) :
    (lexer.reportToken tok).log.toList =
      lexer.log.toList ++ (LocatedToken.diagnostic? ⟨tok, lexer.tokenSpan⟩).toList := by
  cases tok with
  | illegal error => exact DiagnosticLog.toList_report ..
  | _ => exact (List.append_nil _).symm

/-- One call adds the diagnostic of the token that it returns, if the token has one. -/
theorem log_nextLocated (lexer : Lexer) (h : lexer.HaltsAtEnd) :
    lexer.nextLocated.2.log.toList =
      lexer.log.toList ++ lexer.nextLocated.1.diagnostic?.toList := by
  rcases nextLocated_cases lexer h with ⟨-, hnext⟩ | ⟨tok, n, -, hnext⟩
  · rw [hnext]
    exact (List.append_nil _).symm
  · rw [hnext]
    exact log_reportToken (lexer.toNextToken.skip n) tok

/-- Reading to the end adds the diagnostics of the tokens ahead. -/
theorem log_tokenizeAfter (read : TokenStream) (lexer : Lexer) (h : lexer.HaltsAtEnd) :
    (tokenizeAfter read lexer).2.log.toList =
      lexer.log.toList ++ lexer.upcoming.filterMap LocatedToken.diagnostic? := by
  induction read, lexer using tokenizeAfter.induct with
  | case1 read lexer next hend =>
      rw [tokenizeAfter, if_pos hend, log_nextLocated lexer h, upcoming_eq lexer h, if_pos hend,
        List.filterMap_eq_flatMap_toList, List.flatMap_singleton]
  | case2 read lexer next hend ih =>
      rw [tokenizeAfter, if_neg hend, ih (haltsAtEnd_nextLocated lexer h), log_nextLocated lexer h,
        upcoming_eq lexer h, if_neg hend, List.filterMap_eq_flatMap_toList,
        List.filterMap_eq_flatMap_toList, List.flatMap_cons, List.append_assoc]

/-- The log after a scan and the stream of the scan tell the same errors. -/
theorem toList_log_tokenize (source : Text) (config : LexerConfig) (file : FileId)
    (log : DiagnosticLog) :
    (start source config file log).tokenize.2.log.toList =
      log.toList ++ (start source config file log).tokenize.1.toList.filterMap
        LocatedToken.diagnostic? := by
  have hlog := log_tokenizeAfter {} _ (haltsAtEnd_start source config file log)
  rw [toList_tokenize]
  exact hlog

theorem toList_log_scan (source : Text) (config : LexerConfig) (file : FileId) :
    (scan source config file).2.toList =
      (scan source config file).1.toList.filterMap LocatedToken.diagnostic? :=
  toList_log_tokenize source config file {}

/-- What a scan reports are errors of tokens that have their place in the source. -/
theorem exists_hasPlace_of_mem_log {source : Text} {config : LexerConfig} {file : FileId}
    {diagnostic : Diagnostic} (h : diagnostic ∈ (scan source config file).2.toList) :
    ∃ located error, HasPlace config file Position.start source located ∧
      located.token = .illegal error ∧
      diagnostic = ⟨error.message, located.span, some error.code⟩ := by
  rw [toList_log_scan, toList_scan] at h
  obtain ⟨located, hlocated, hdiagnostic⟩ := List.mem_filterMap.mp h
  cases htok : located.token with
  | illegal error =>
      rw [LocatedToken.diagnostic?, htok] at hdiagnostic
      have hend : located.token ≠ .endOfInput := by
        rw [htok]
        exact Token.noConfusion
      exact ⟨located, error, hasPlace_of_mem_locate hlocated hend, htok,
        (Option.some.inj hdiagnostic).symm⟩
  | _ =>
      rw [LocatedToken.diagnostic?, htok] at hdiagnostic
      cases hdiagnostic

/-- A scan reports the errors of its stream, in the order of the stream and behind what was reported
before. There is one error for every illegal token, and it is reported at the token's span. -/
theorem tokenize_reports_errors (source : Text) (config : LexerConfig) (file : FileId)
    (log : DiagnosticLog) :
    let scanned := (start source config file log).tokenize
    scanned.2.log.toList = log.toList ++ (scanned.1.errors.map fun (error, located) =>
        (⟨error.message, located.span, some error.code⟩ : Diagnostic)) ∧
      scanned.1.errors.map (·.2) = scanned.1.toList.filter (·.token.isIllegal) ∧
      ∀ error located, (error, located) ∈ scanned.1.errors → located.token = .illegal error := by
  intro scanned
  refine ⟨?_, scanned.1.map_located_errors, ?_⟩
  · rw [scanned.1.map_diagnostic_errors]
    exact toList_log_tokenize source config file log
  · intro error located h
    exact scanned.1.token_of_mem_errors h

end Lexer

end CoolLexer
