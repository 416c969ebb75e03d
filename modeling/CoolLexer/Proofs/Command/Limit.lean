import CoolLexer.Command.Program
import CoolLexer.Proofs.Command.Effects
import CoolLexer.Proofs.Config.Search

/-!
# What reaches the lexer

A run falls into what comes before the lexer and what is made of its result. The options that reach
the lexer never limit string values to length zero, since loading a configuration refuses such a
limit and so does the command line.
-/

namespace CoolLexer.Command

/-- What a run gives to the lexer, with what it needs to go on. -/
structure Job where
  command : Name
  given : Given
  config : Config
  /-- The display name of the source. -/
  name : Text
  source : Text
  options : LexerConfig
deriving DecidableEq

/-- How far a run gets without the lexer. -/
inductive Stage where
  | ended (status : Status)
  | ready (job : Job)
deriving DecidableEq

section
variable {m : Type → Type} [Monad m] [Storage m]

def Name.failureContext : Name → String
  | lex => "lex failed"
  | check => "check failed"

/-- What a command does before the lexer is called. -/
def prepareCommand (config : Config) (given : Given) (command : Name) : m Stage := do
  match ← readSource (given.value? .input) with
  | .error failure => return .ended (← fail command.failureContext failure)
  | .ok (name, source) =>
      match lexerOptions config given.overrides with
      | .error failure => return .ended (← fail command.failureContext failure)
      | .ok options => return .ready ⟨command, given, config, name, source, options⟩

/-- What a run does before the lexer is called. -/
def prepare (directories : ConfigDirectories) (environment : Environment)
    (arguments : List Text) : m Stage := do
  match Request.ofArguments environment arguments with
  | .misuse =>
      Storage.writeMessage usageText
      return .ended .misuse
  | .version command =>
      let _ ← Storage.write (versionText command)
      return .ended .success
  | .help =>
      let _ ← Storage.write usageText
      return .ended .success
  | .run path command given =>
      match ← loadConfig directories path with
      | .ok config => prepareCommand config given command
      | .error failure => return .ended (← fail "failed to load configuration" failure)

/-- What a run does with what the lexer returns. -/
def Job.finish (job : Job) (stream : TokenStream) (log : DiagnosticLog) : m Status :=
  match job.command with
  | .lex => do
      let command := job.given.lex job.config
      match ← command.write (command.render stream) with
      | .ok () => return .success
      | .error failure => fail (Name.failureContext .lex) failure
  | .check => do
      let report : CheckReport :=
        ⟨job.name, log.toList.map (·.render ⟨job.name, job.source⟩)⟩
      Storage.writeMessage report.messages
      return if report.isClean then .success else .failure

/-- The rest of a run, which calls the lexer at most once. -/
def Stage.finish (lexer : Text → LexerConfig → TokenStream × DiagnosticLog) : Stage → m Status
  | ended status => return status
  | ready job =>
      let (stream, log) := lexer job.source job.options
      job.finish stream log

theorem Given.lex_scan (given : Given) (config : Config) (source : Text) :
    (given.lex config).scan source =
      (lexerOptions config given.overrides).map fun options =>
        (CoolLexer.scan source options).1 := by
  have hoptions : lexerOptions (given.lex config).config (given.lex config).overrides =
      lexerOptions config given.overrides := rfl
  rw [Lex.scan, hoptions]
  cases lexerOptions config given.overrides <;> rfl

theorem Given.check_checkSource (given : Given) (config : Config) (name source : Text) :
    (given.check config).checkSource name source =
      (lexerOptions config given.overrides).map fun options =>
        ⟨name, (CoolLexer.scan source options).2.toList.map (·.render ⟨name, source⟩)⟩ := by
  cases hoptions : lexerOptions config given.overrides with
  | ok options => exact Check.checkSource_of_options hoptions name source
  | error failure =>
      have herror : lexerOptions (given.check config).config (given.check config).overrides =
          .error failure := hoptions
      rw [Check.checkSource, herror]
      rfl

theorem runCommand_eq [LawfulMonad m] (config : Config) (given : Given) (command : Name) :
    (runCommand config given command : m Status) =
      prepareCommand config given command >>=
        Stage.finish fun source options => CoolLexer.scan source options := by
  cases command with
  | lex =>
      rw [runCommand, prepareCommand, Lex.run, bind_assoc, bind_assoc]
      refine bind_congr fun found => ?_
      cases found with
      | error failure => simp [Stage.finish, Name.failureContext]
      | ok found =>
          obtain ⟨name, source⟩ := found
          simp only [given.lex_scan]
          cases lexerOptions config given.overrides with
          | error failure => simp [Stage.finish, Name.failureContext, Except.map]
          | ok options =>
              simp only [Except.map, bind_assoc, pure_bind, Stage.finish, Job.finish]
              refine bind_congr fun written => ?_
              cases written <;> simp [Name.failureContext]
  | check =>
      rw [runCommand, prepareCommand, Check.run, bind_assoc, bind_assoc]
      refine bind_congr fun found => ?_
      cases found with
      | error failure => simp [Stage.finish, Name.failureContext]
      | ok found =>
          obtain ⟨name, source⟩ := found
          simp only [given.check_checkSource]
          cases lexerOptions config given.overrides with
          | error failure => simp [Stage.finish, Name.failureContext, Except.map]
          | ok options =>
              simp only [Except.map, bind_assoc, pure_bind, Stage.finish, Job.finish]

theorem run_eq [LawfulMonad m] (directories : ConfigDirectories) (environment : Environment)
    (arguments : List Text) :
    (run directories environment arguments : m Status) =
      prepare directories environment arguments >>=
        Stage.finish fun source options => CoolLexer.scan source options := by
  rw [run, prepare]
  cases Request.ofArguments environment arguments with
  | misuse => simp [Stage.finish]
  | version command => simp [Stage.finish]
  | help => simp [Stage.finish]
  | run path command given =>
      simp only [bind_assoc]
      refine bind_congr fun loaded => ?_
      cases loaded with
      | ok config => exact runCommand_eq config given command
      | error failure => simp [Stage.finish]

end

/-- The parts of a job that a run has prepared for the lexer. -/
structure Prepared (directories : ConfigDirectories) (environment : Environment)
    (arguments : List Text) (machine : Machine) (job : Job) : Prop where
  loaded : ∃ path, Request.ofArguments environment arguments = .run path job.command job.given ∧
    machine.result (loadConfig directories path) = .ok job.config
  merged : job.given.overrides.apply? job.config.lexer = some job.options
  positive : 1 ≤ job.options.maxStringLength

theorem one_le_of_apply {overrides : LexerOverrides} {base options : LexerConfig}
    (hbase : 1 ≤ base.maxStringLength) (h : overrides.apply? base = some options) :
    1 ≤ options.maxStringLength := by
  unfold LexerOverrides.apply? at h
  cases hlimit : overrides.maxStringLength with
  | none =>
      rw [hlimit] at h
      cases Option.some.inj h
      exact hbase
  | some limit =>
      rw [hlimit] at h
      cases limit with
      | zero => cases h
      | succ limit =>
          cases Option.some.inj h
          exact Nat.le_add_left 1 limit

section
variable {machine : Machine}

theorem one_le_of_loadConfig {directories : ConfigDirectories} {path : Option Text}
    {config : Config} (h : machine.result (loadConfig directories path) = .ok config) :
    1 ≤ config.lexer.maxStringLength := by
  cases path with
  | none => exact Config.one_le_of_load h
  | some path => exact Config.one_le_of_loadFrom h

theorem eq_of_prepareCommand {config : Config} {given : Given} {command : Name} {job : Job}
    (h : machine.result (prepareCommand config given command) = .ready job) :
    job.command = command ∧ job.given = given ∧ job.config = config ∧
      given.overrides.apply? config.lexer = some job.options := by
  rw [prepareCommand, Machine.result_bind, after_readSource] at h
  cases hread : machine.result (readSource (given.value? .input)) with
  | error failure => simp only [hread, Machine.result_bind, Machine.result_pure, reduceCtorEq] at h
  | ok found =>
      cases hoptions : given.overrides.apply? config.lexer with
      | none =>
          simp only [hread, lexerOptions, hoptions, Machine.result_bind, Machine.result_pure,
            reduceCtorEq] at h
      | some options =>
          simp only [hread, lexerOptions, hoptions, Machine.result_pure] at h
          cases Stage.ready.inj h
          exact ⟨rfl, rfl, rfl, rfl⟩

theorem prepared_of_prepare {directories : ConfigDirectories} {environment : Environment}
    {arguments : List Text} {job : Job}
    (h : machine.result (prepare directories environment arguments) = .ready job) :
    Prepared directories environment arguments machine job := by
  rw [prepare] at h
  cases hrequest : Request.ofArguments environment arguments with
  | run path command given =>
      simp only [hrequest, Machine.result_bind] at h
      cases hload : machine.result (loadConfig directories path) with
      | error failure =>
          simp only [hload, Machine.result_bind, Machine.result_pure, reduceCtorEq] at h
      | ok config =>
          simp only [hload] at h
          obtain ⟨rfl, rfl, rfl, hmerged⟩ := eq_of_prepareCommand h
          exact ⟨⟨path, hrequest, hload⟩, hmerged,
            one_le_of_apply (one_le_of_loadConfig hload) hmerged⟩
  | _ => simp only [hrequest, Machine.result_bind, Machine.result_pure, reduceCtorEq] at h

end

/-- Every run calls the lexer at most once, never with a limit of zero, and the configuration that
it loads without a given path is what the first of the three places that exists decides. -/
theorem limit_positive_config_unmasked (directories : ConfigDirectories) :
    (∀ (environment : Environment) (arguments : List Text),
      (run directories environment arguments : StateM Machine Status) =
          prepare directories environment arguments >>=
            Stage.finish (fun source options => CoolLexer.scan source options) ∧
        ∀ (machine : Machine) (job : Job),
          machine.result (prepare directories environment arguments) = .ready job →
          Prepared directories environment arguments machine job) ∧
    (∀ machine : Machine, machine.result (Config.load directories) =
      match (Config.places directories).find? machine.files.pathExists with
      | some path => machine.result (Config.loadFrom path)
      | none => .ok {}) ∧
    ∀ machine other : Machine,
      (∀ path ∈ Config.places directories,
        other.files.pathExists path = machine.files.pathExists path) →
      (∀ path, (Config.places directories).find? machine.files.pathExists = some path →
        other.files.read path = machine.files.read path) →
      other.result (Config.load directories) = machine.result (Config.load directories) := by
  rw [← Config.candidates_eq_places]
  refine ⟨?_, ?_, ?_⟩
  · intro environment arguments
    exact ⟨run_eq directories environment arguments, fun machine job => prepared_of_prepare⟩
  · intro machine
    exact Config.result_load machine directories
  · intro machine other hexists hread
    exact Config.result_load_congr hexists hread

/-- A configuration file in the working directory, another one in `/etc`, and a source as input. -/
def twoConfigs (elsewhere : Text) : Machine where
  files.nodes := [
    (["coolt.toml".toList], .file (Text.encode "[lexer]\nmax_string_length = 2\n".toList)),
    (["etc".toList], .directory),
    (["etc".toList, "coolt".toList], .directory),
    (["etc".toList, "coolt".toList, "coolt.toml".toList], .file elsewhere.encode)]
  input := Text.encode ['x']

/-- The file in the working directory decides, whatever is in the other one, and also where it cannot
be read. -/
theorem limit_positive_config_unmasked_local :
    let directories : ConfigDirectories := { configHome := some "/etc".toList }
    let job : Job := ⟨.lex, {}, ⟨⟨2, false⟩, .lines⟩, standardInputName, ['x'], ⟨2, false⟩⟩
    let denied : FileError := .other "Permission denied (os error 13)".toList
    let locked : Machine := { twoConfigs [] with
      files.refusal := fun access place =>
        if access = .read ∧ place = ["coolt.toml".toList] then some denied else none }
    (twoConfigs []).result (prepare directories {} ["lex".toList]) = .ready job ∧
      Prepared directories {} ["lex".toList] (twoConfigs []) job ∧
      (twoConfigs []).result (Config.load directories) = .ok job.config ∧
      (twoConfigs "[lexer".toList).result (Config.load directories) =
        (twoConfigs []).result (Config.load directories) ∧
      locked.result (Config.load directories) = .error (.io denied) := by
  intro directories job denied locked
  obtain ⟨hrun, hload, hlocal⟩ := limit_positive_config_unmasked directories
  have hready : (twoConfigs []).result (prepare directories {} ["lex".toList]) = .ready job := by
    rfl
  refine ⟨hready, (hrun {} ["lex".toList]).2 (twoConfigs []) job hready, ?_, ?_, ?_⟩
  · rw [hload]
    rfl
  · apply hlocal
    · decide
    · intro path hfirst
      cases Option.some.inj hfirst
      rfl
  · rw [hload]
    rfl

end CoolLexer.Command
