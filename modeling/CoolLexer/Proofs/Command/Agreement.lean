import CoolLexer.Command.Program
import CoolLexer.FileSystem.Tree
import CoolLexer.Proofs.Lexer.Report

/-!
# The two commands agree

Given the same arguments, writing the tokens of a source and checking it fail together, and what a
check shows are the errors among the tokens that are written.
-/

namespace CoolLexer.Command

/-- The check of the source whose tokens are written. -/
def Lex.toCheck (command : Lex) : Check where
  input := command.input
  overrides := command.overrides
  config := command.config

/-- The options of a scan, unless the command line limits string values to length zero. -/
def Lex.options (command : Lex) : LexerConfig where
  maxStringLength := command.overrides.maxStringLength.getD command.config.lexer.maxStringLength
  lineComments := command.config.lexer.lineComments || command.overrides.lineComments

/-- A text starts with the place, the code and the message of an illegal token. -/
def Shows (name : Text) (located : LocatedToken) (shown : Text) : Prop :=
  ∃ error, located.token = .illegal error ∧
    name ++ ':' :: Text.ofNat located.span.line ++ ':' :: Text.ofNat located.span.column ++
      ": error[".toList ++ error.code.text ++ "]: ".toList ++ error.message <+: shown

/-- The report shows the illegal tokens of a stream, in their order. -/
structure CheckReport.Tells (report : CheckReport) (name : Text) (stream : TokenStream) : Prop where
  name_eq : report.name = name
  count : report.diagnostics.length = stream.errorCount
  shows : List.Forall₂ (Shows name) (stream.toList.filter (·.token.isIllegal)) report.diagnostics
  clean : report.isClean = true ↔ stream.hasErrors = false

/-- What the two commands make of a source. -/
inductive Agree (command : Lex) (name source : Text) :
    Except Failure TokenStream → Except Failure CheckReport → Prop
  | refused : command.overrides.maxStringLength = some 0 →
      Agree command name source (.error .zeroLength) (.error .zeroLength)
  | scanned {report : CheckReport} : command.overrides.maxStringLength ≠ some 0 →
      report.diagnostics =
        (CoolLexer.scan source command.options).2.toList.map (·.render ⟨name, source⟩) →
      report.Tells name (CoolLexer.scan source command.options).1 →
      Agree command name source (.ok (CoolLexer.scan source command.options).1) (.ok report)

/-- How writing to an output fails: to a file, or without one to the standard output. -/
inductive Unwritten : Option Text → Failure → Prop
  | file (path : Text) (cause : FileError) : Unwritten (some path) (.cannotWrite path cause)
  | output (cause : FileError) : Unwritten none (.io cause)

/-- What the runs of the two commands come to. Only one of them has to write its result, which can
fail. -/
inductive RunsAgree (output : Option Text) :
    Except Failure LexOutcome → Except Failure CheckReport → Prop
  | failed (failure : Failure) : RunsAgree output (.error failure) (.error failure)
  | unwritten {failure : Failure} (report : CheckReport) : Unwritten output failure →
      RunsAgree output (.error failure) (.ok report)
  | finished {outcome : LexOutcome} {report : CheckReport} :
      outcome.errors = report.diagnostics.length → RunsAgree output (.ok outcome) (.ok report)

theorem lexerOptions_of_zero {overrides : LexerOverrides} (config : Config)
    (h : overrides.maxStringLength = some 0) :
    lexerOptions config overrides = .error .zeroLength := by
  simp only [lexerOptions, LexerOverrides.apply?, h]

theorem lexerOptions_of_ne_zero {command : Lex} (h : command.overrides.maxStringLength ≠ some 0) :
    lexerOptions command.config command.overrides = .ok command.options := by
  rw [lexerOptions, LexerOverrides.apply?, Lex.options]
  cases hlimit : command.overrides.maxStringLength with
  | none => rfl
  | some limit =>
      cases limit with
      | zero => exact absurd hlimit h
      | succ limit => rfl

theorem Lex.scan_of_zero {command : Lex} (h : command.overrides.maxStringLength = some 0)
    (source : Text) : command.scan source = .error .zeroLength := by
  rw [scan, lexerOptions_of_zero command.config h]

theorem Lex.scan_of_ne_zero {command : Lex} (h : command.overrides.maxStringLength ≠ some 0)
    (source : Text) : command.scan source = .ok (CoolLexer.scan source command.options).1 := by
  rw [scan, lexerOptions_of_ne_zero h]

/-- The source is shown as the source map has it. -/
theorem Check.checkSource_of_options {command : Check} {options : LexerConfig}
    (h : lexerOptions command.config command.overrides = .ok options) (name source : Text) :
    command.checkSource name source =
      .ok ⟨name, (CoolLexer.scan source options).2.toList.map (·.render ⟨name, source⟩)⟩ := by
  rw [checkSource, h]
  rfl

private theorem shows_diagnostic (file : SourceFile) {located : LocatedToken} {error : LexicalError}
    (h : located.token = .illegal error) :
    Shows file.name located
      (Diagnostic.render ⟨error.message, located.span, some error.code⟩ file) := by
  refine ⟨error, h, ?_⟩
  rw [Diagnostic.render, Diagnostic.locatedHeader, Diagnostic.header]
  simp [List.append_assoc]

private theorem shows_diagnostics (file : SourceFile) (tokens : List LocatedToken) :
    List.Forall₂ (Shows file.name) (tokens.filter (·.token.isIllegal))
      ((tokens.filterMap LocatedToken.diagnostic?).map (·.render file)) := by
  induction tokens with
  | nil => exact .nil
  | cons located tokens ih =>
      cases htok : located.token with
      | illegal error =>
          have hshows := List.Forall₂.cons (shows_diagnostic file htok) ih
          simpa [List.filter_cons, LocatedToken.diagnostic?, Token.error?, Token.isIllegal, htok]
            using hshows
      | _ =>
          simpa [List.filter_cons, LocatedToken.diagnostic?, Token.error?, Token.isIllegal, htok]
            using ih

theorem tells_of_scan (name source : Text) (options : LexerConfig) :
    CheckReport.Tells
      ⟨name, (CoolLexer.scan source options).2.toList.map (·.render ⟨name, source⟩)⟩ name
      (CoolLexer.scan source options).1 := by
  have hcount : ((CoolLexer.scan source options).2.toList.map
      (·.render ⟨name, source⟩)).length = (CoolLexer.scan source options).1.errorCount := by
    rw [List.length_map, Lexer.toList_log_scan, length_filterMap_diagnostic?,
      TokenStream.errorCount, TokenStream.tokens, List.countP_map]
    rfl
  refine ⟨rfl, hcount, ?_, ?_⟩
  · rw [Lexer.toList_log_scan]
    exact shows_diagnostics ⟨name, source⟩ _
  · rw [TokenStream.hasErrors_eq_false_iff, ← hcount, List.length_eq_zero_iff]
    exact List.isEmpty_iff

/-- Neither command refuses a source that the other takes, and both scan it with the same
options. -/
theorem scan_checkSource_agree (command : Lex) (name source : Text) :
    Agree command name source (command.scan source) (command.toCheck.checkSource name source) := by
  by_cases hzero : command.overrides.maxStringLength = some 0
  · have hoptions := lexerOptions_of_zero command.config hzero
    have hcheck : command.toCheck.checkSource name source = .error .zeroLength := by
      rw [Check.checkSource, Lex.toCheck, hoptions]
    rw [Lex.scan_of_zero hzero, hcheck]
    exact .refused hzero
  · have hoptions := lexerOptions_of_ne_zero hzero
    have hcheck : lexerOptions command.toCheck.config command.toCheck.overrides =
        .ok command.options := hoptions
    rw [Lex.scan_of_ne_zero hzero, Check.checkSource_of_options hcheck]
    exact .scanned hzero rfl (tells_of_scan name source command.options)

section
variable {machine : Machine} {failure : Failure} {name source : Text}

theorem Check.result_run_of_unread {command : Check}
    (h : machine.result (readSource command.input) = .error failure) :
    machine.result command.run = .error failure := by
  rw [Check.run, Machine.result_bind, h]
  rfl

theorem Check.result_run_of_read {command : Check}
    (h : machine.result (readSource command.input) = .ok (name, source)) :
    machine.result command.run = command.checkSource name source := by
  rw [Check.run, Machine.result_bind, h]
  cases hcheck : command.checkSource name source with
  | error failure => simp only [hcheck, Machine.result_pure]
  | ok report => simp only [hcheck, Machine.result_bind, Machine.result_pure]

theorem Lex.result_run_of_unread {command : Lex}
    (h : machine.result (readSource command.input) = .error failure) :
    machine.result command.run = .error failure := by
  rw [Lex.run, Machine.result_bind, h]
  rfl

theorem Lex.result_run_of_refused {command : Lex}
    (h : machine.result (readSource command.input) = .ok (name, source))
    (hscan : command.scan source = .error failure) :
    machine.result command.run = .error failure := by
  rw [Lex.run, Machine.result_bind, h]
  simp only [hscan, Machine.result_pure]

theorem Lex.result_write (command : Lex) (content : Text) (machine : Machine) :
    machine.result (command.write content) = .ok () ∨
      ∃ failure, machine.result (command.write content) = .error failure ∧
        Unwritten command.output failure := by
  rw [Lex.write]
  cases command.output with
  | none =>
      simp only [Machine.result_bind]
      cases machine.result (Storage.write content) with
      | ok => exact .inl rfl
      | error cause => exact .inr ⟨_, rfl, .output cause⟩
  | some path =>
      simp only [Machine.result_bind]
      cases machine.result (Storage.writeFile path content) with
      | ok => exact .inl rfl
      | error cause => exact .inr ⟨_, rfl, .file path cause⟩

theorem Lex.result_run_of_scanned {command : Lex} {stream : TokenStream}
    (h : machine.result (readSource command.input) = .ok (name, source))
    (hscan : command.scan source = .ok stream) :
    machine.result command.run = .ok ⟨stream.size, stream.errorCount⟩ ∨
      ∃ failure, machine.result command.run = .error failure ∧
        Unwritten command.output failure := by
  rw [Lex.run, Machine.result_bind, h]
  simp only [hscan, Machine.result_bind]
  rcases Lex.result_write command (command.render stream)
    (machine.after (readSource command.input)) with hwrite | ⟨failure, hwrite, hunwritten⟩
  · rw [hwrite]
    exact .inl rfl
  · rw [hwrite]
    exact .inr ⟨failure, rfl, hunwritten⟩

theorem run_agree (command : Lex) (machine : Machine) :
    RunsAgree command.output (machine.result command.run)
      (machine.result command.toCheck.run) := by
  cases hread : machine.result (readSource command.input) with
  | error failure =>
      have hcheck : machine.result (readSource command.toCheck.input) = .error failure := hread
      rw [Lex.result_run_of_unread hread, Check.result_run_of_unread hcheck]
      exact .failed failure
  | ok found =>
      obtain ⟨name, source⟩ := found
      have hcheck : machine.result (readSource command.toCheck.input) = .ok (name, source) := hread
      rw [Check.result_run_of_read hcheck]
      have hagree := scan_checkSource_agree command name source
      generalize command.toCheck.checkSource name source = checked at hagree ⊢
      generalize hscan : command.scan source = scanned at hagree
      cases hagree with
      | refused _ =>
          rw [Lex.result_run_of_refused hread hscan]
          exact .failed .zeroLength
      | scanned _ _ htells =>
          rcases Lex.result_run_of_scanned hread hscan with hrun | ⟨failure, hrun, hunwritten⟩
          · rw [hrun]
            exact .finished htells.count.symm
          · rw [hrun]
            exact .unwritten _ hunwritten

theorem result_runCommand_check (config : Config) (given : Given) (machine : Machine) :
    machine.result (runCommand config given .check) =
      match machine.result (given.check config).run with
      | .ok report => if report.isClean then .success else .failure
      | .error _ => .failure := by
  rw [runCommand, Machine.result_bind]
  cases machine.result (given.check config).run with
  | ok report => rfl
  | error failure => rfl

theorem status_check_iff (config : Config) (given : Given) (machine : Machine) :
    (machine.result (runCommand config given .check)).code = 0 ↔
      ∃ name source stream, machine.result (readSource (given.value? .input)) = .ok (name, source) ∧
        (given.lex config).scan source = .ok stream ∧ stream.hasErrors = false := by
  rw [result_runCommand_check]
  cases hread : machine.result (readSource (given.value? .input)) with
  | error failure =>
      have hcheck : machine.result (readSource (given.check config).input) = .error failure := hread
      rw [Check.result_run_of_unread hcheck]
      simp [Status.code]
  | ok found =>
      obtain ⟨name, source⟩ := found
      have hcheck : machine.result (readSource (given.check config).input) = .ok (name, source) :=
        hread
      have hagree : Agree (given.lex config) name source ((given.lex config).scan source)
        ((given.check config).checkSource name source) :=
        scan_checkSource_agree (given.lex config) name source
      rw [Check.result_run_of_read hcheck]
      generalize (given.check config).checkSource name source = checked at hagree ⊢
      generalize hscan : (given.lex config).scan source = scanned at hagree
      cases hagree with
      | refused _ => simp [Status.code, hscan]
      | @scanned report _ _ htells =>
          have hstatus : (if report.isClean then Status.success else .failure).code = 0 ↔
              report.isClean = true := by
            cases report.isClean <;> simp [Status.code]
          show (if report.isClean then Status.success else .failure).code = 0 ↔ _
          rw [hstatus, htells.clean]
          constructor
          · intro hclean
            exact ⟨name, source, _, rfl, hscan, hclean⟩
          · rintro ⟨_, _, stream, hfound, hstream, hclean⟩
            cases hfound
            rw [hscan] at hstream
            cases hstream
            exact hclean

end

end CoolLexer.Command
