import CoolLexer.Proofs.Command.Agreement
import CoolLexer.Proofs.FileSystem.Write
import CoolLexer.Proofs.Text.Utf8

/-!
# What the commands leave behind

Writing the tokens of a source does all or nothing, as far as the output allows. Whatever fails
before the tokens are written leaves everything as it was, and so does a failing write to a file. A
standard output that fails has taken a part of them, though, and the null device keeps nothing of
what is written to it. A check writes messages only.
-/

namespace CoolLexer

/-- There is room for bytes in an outlet. -/
def Outlet.HasRoom (outlet : Outlet) (bytes : List UInt8) : Prop :=
  ∀ room cause, outlet.fault = some (room, cause) → bytes.length ≤ room

/-- An outlet takes all bytes, or as many of them as there is room for. -/
theorem Outlet.write_cases (outlet : Outlet) (bytes : List UInt8) :
    (outlet.HasRoom bytes ∧ (outlet.write bytes).1 = .ok () ∧
      (outlet.write bytes).2.taken = outlet.taken ++ bytes) ∨
    ∃ part cause, part <+: bytes ∧ part.length < bytes.length ∧
      outlet.fault = some (part.length, cause) ∧ (outlet.write bytes).1 = .error cause ∧
      (outlet.write bytes).2.taken = outlet.taken ++ part := by
  rw [write]
  cases hfault : outlet.fault with
  | none => exact .inl ⟨fun _ _ h => by simp [hfault] at h, rfl, rfl⟩
  | some fault =>
      obtain ⟨room, cause⟩ := fault
      by_cases hroom : bytes.length ≤ room
      · refine .inl ⟨?_, if_pos hroom, ?_⟩
        · intro room' cause' h
          rw [hfault] at h
          cases h
          exact hroom
        · show outlet.taken ++ bytes.take room = outlet.taken ++ bytes
          rw [List.take_of_length_le hroom]
      · have hlength : (bytes.take room).length = room := by
          rw [List.length_take]
          omega
        exact .inr ⟨bytes.take room, cause, List.take_prefix room bytes, by omega,
          by rw [hlength], if_neg hroom, rfl⟩

/-- The text of a stream in a format: one token a line, all tokens on one line, or the records of
the tokens in an array. -/
def OutputFormat.textOf (stream : TokenStream) : OutputFormat → Text
  | lines => ['\n'].intercalate (stream.tokens.map Token.render) ++ ['\n']
  | spaced => [' '].intercalate (stream.tokens.map Token.render) ++ ['\n']
  | json => "[\n".toList ++
      ",\n".toList.intercalate (stream.toList.map fun located => located.record.pretty) ++
      "\n]\n".toList

namespace Command

/-- What there is to read from the standard input. -/
def standardInput (machine : Machine) : Except FileError ByteArray :=
  match machine.inputFault with
  | some cause => .error cause
  | none => .ok machine.input

/-- What is in the input of a command: in a file, or without one and for `-` in the standard
input. -/
def sourceBytes (machine : Machine) : Option Text → Except FileError ByteArray
  | none => standardInput machine
  | some path =>
      if Path.components path = [['-']] then standardInput machine else machine.files.read path

def readFailure (cause : FileError) : Option Text → Failure
  | none => .io cause
  | some path => if Path.components path = [['-']] then .io cause else .cannotRead path cause

namespace Lex

/-- The tokens of a source, with the options of the command. -/
def streamOf (command : Lex) (source : Text) : TokenStream :=
  (CoolLexer.scan source command.options).1

/-- The text of these tokens in the format of the command, or else of its configuration. -/
def textOf (command : Lex) (source : Text) : Text :=
  (command.format.getD command.config.format).textOf (command.streamOf source)

/-- The text that the command reads from a machine. -/
def Reads (command : Lex) (machine : Machine) (source : Text) : Prop :=
  ∃ bytes, sourceBytes machine command.input = .ok bytes ∧ Text.decode? bytes = some source

/-- Why a run fails, and what it leaves behind. -/
inductive Fails (command : Lex) (machine : Machine) : Failure → Machine → Prop
  | unreadable {cause : FileError} : sourceBytes machine command.input = .error cause →
      command.Fails machine (readFailure cause command.input) machine
  | noText {bytes : ByteArray} : sourceBytes machine command.input = .ok bytes →
      Text.decode? bytes = none →
      command.Fails machine (readFailure .invalidText command.input) machine
  | refused {source : Text} : command.Reads machine source →
      command.overrides.maxStringLength = some 0 → command.Fails machine .zeroLength machine
  | unwritten {source path : Text} {cause : FileError} : command.Reads machine source →
      command.overrides.maxStringLength ≠ some 0 → command.output = some path →
      machine.files.write path (command.textOf source).encode = .error cause →
      command.Fails machine (.cannotWrite path cause) machine
  /-- The standard output has taken a part of the text, and no more. -/
  | brokenOff {source : Text} {part : List UInt8} {cause : FileError} {outlet : Outlet} :
      command.Reads machine source → command.overrides.maxStringLength ≠ some 0 →
      command.output = none → part <+: (command.textOf source).utf8 →
      part.length < (command.textOf source).utf8.length →
      machine.outlet.fault = some (part.length, cause) →
      outlet.taken = machine.outlet.taken ++ part →
      command.Fails machine (.io cause) { machine with outlet }

/-- A text is written to the output of the command, and nothing else happens. -/
inductive Puts (command : Lex) (machine : Machine) (content : Text) : Machine → Prop
  | output {outlet : Outlet} : command.output = none → machine.outlet.HasRoom content.utf8 →
      outlet.taken = machine.outlet.taken ++ content.utf8 →
      command.Puts machine content { machine with outlet }
  | file {path : Text} {place : List Text} {files : FileTree} : command.output = some path →
      machine.files.Writes files path place content.encode →
      command.Puts machine content { machine with files }
  | nullDevice {path : Text} {place : List Text} : command.output = some path →
      machine.files.locate true path = .ok (.nullDevice place) →
      machine.files.node? place = some .nullDevice → command.Puts machine content machine

/-- What a run returns and leaves behind. -/
inductive Runs (command : Lex) (machine : Machine) : Except Failure LexOutcome → Machine → Prop
  | failed {failure : Failure} {after : Machine} : command.Fails machine failure after →
      command.Runs machine (.error failure) after
  | finished {source : Text} {outcome : LexOutcome} {after : Machine} :
      command.Reads machine source → command.overrides.maxStringLength ≠ some 0 →
      outcome.tokens = (command.streamOf source).toList.length →
      outcome.errors = ((command.streamOf source).toList.filter (·.token.isIllegal)).length →
      command.Puts machine (command.textOf source) after →
      command.Runs machine (.ok outcome) after

theorem render_streamOf (command : Lex) (source : Text) :
    command.render (command.streamOf source) = command.textOf source := by
  rw [render, textOf, effectiveFormat]
  cases command.format.getD command.config.format with
  | lines => rfl
  | spaced => rfl
  | json =>
      show TokenStream.renderJson _ = _
      cases hstream : (command.streamOf source).toList with
      | nil =>
          obtain ⟨tokens, span, htokens⟩ :=
            Lexer.exists_locate_eq_concat command.options 0 Position.start source
          rw [streamOf, Lexer.toList_scan, htokens] at hstream
          exact absurd hstream (List.concat_ne_nil _ _)
      | cons located rest =>
          simp [TokenStream.renderJson, renderRecords, OutputFormat.textOf, hstream,
            Function.comp_def]

end Lex

section
variable {machine : Machine}

theorem after_readSource (input : Option Text) (machine : Machine) :
    machine.after (readSource input) = machine := by
  have hstandard : machine.after Storage.readInputText = machine := by
    rw [Storage.readInputText, Machine.after_bind]
    simp only [Machine.after, Storage.readInput]
    cases machine.inputFault <;> rfl
  rw [readSource]
  cases inputFile? input with
  | none =>
      simp only [Machine.after_bind, hstandard]
      cases machine.result Storage.readInputText <;> rfl
  | some path =>
      simp only [Machine.after_bind]
      cases machine.result (Storage.readText path) <;> rfl

theorem result_readInputText (machine : Machine) :
    machine.result Storage.readInputText = standardInput machine >>= FileError.decode := by
  rw [Storage.readInputText, Machine.result_bind, standardInput]
  simp only [Machine.result, Storage.readInput]
  cases machine.inputFault <;> rfl

theorem result_readSource (input : Option Text) (machine : Machine) :
    machine.result (readSource input) =
      match sourceBytes machine input >>= FileError.decode with
      | .ok text => .ok ((inputFile? input).getD standardInputName, text)
      | .error cause => .error (readFailure cause input) := by
  have hstandard (hinput : inputFile? input = none) :
      machine.result (readSource input) =
        match standardInput machine >>= FileError.decode with
        | .ok text => .ok (standardInputName, text)
        | .error cause => .error (.io cause) := by
    rw [readSource, hinput]
    simp only [Machine.result_bind, result_readInputText]
    cases standardInput machine >>= FileError.decode <;> rfl
  cases input with
  | none => exact hstandard rfl
  | some path =>
      by_cases hdash : Path.components path = [['-']]
      · have hinput : inputFile? (some path) = none := by simp [inputFile?, hdash]
        rw [hstandard hinput, hinput]
        simp only [sourceBytes, readFailure, if_pos hdash]
        rfl
      · have hinput : inputFile? (some path) = some path := by simp [inputFile?, hdash]
        rw [readSource, hinput]
        simp only [sourceBytes, readFailure, if_neg hdash, Machine.result_bind,
          Machine.result_readText]
        cases machine.files.read path >>= FileError.decode <;> rfl

/-- The output is written, or a failure comes of it. -/
theorem Lex.write_cases (command : Lex) (content : Text) (machine : Machine) :
    (machine.result (command.write content) = .ok () ∧
      command.Puts machine content (machine.after (command.write content))) ∨
    (∃ path cause, command.output = some path ∧
      machine.files.write path content.encode = .error cause ∧
      machine.result (command.write content) = .error (.cannotWrite path cause) ∧
      machine.after (command.write content) = machine) ∨
    ∃ part cause outlet, command.output = none ∧ part <+: content.utf8 ∧
      part.length < content.utf8.length ∧ machine.outlet.fault = some (part.length, cause) ∧
      outlet.taken = machine.outlet.taken ++ part ∧
      machine.result (command.write content) = .error (.io cause) ∧
      machine.after (command.write content) = { machine with outlet } := by
  rw [Lex.write]
  cases houtput : command.output with
  | none =>
      have hresult : machine.result (Storage.write content) =
          (machine.outlet.write content.utf8).1 := rfl
      have hafter : machine.after (Storage.write content) =
          { machine with outlet := (machine.outlet.write content.utf8).2 } := rfl
      simp only [Machine.result_bind, Machine.after_bind, hresult, hafter]
      rcases machine.outlet.write_cases content.utf8 with
        ⟨hroom, hok, htaken⟩ | ⟨part, cause, hpart, hlength, hfault, herror, htaken⟩
      · rw [hok]
        exact .inl ⟨rfl, .output houtput hroom htaken⟩
      · rw [herror]
        exact .inr (.inr ⟨part, cause, _, trivial, hpart, hlength, hfault, htaken, rfl, rfl⟩)
  | some path =>
      simp only [Machine.result_bind, Machine.after_bind]
      cases hwrite : machine.files.write path content.encode with
      | ok files =>
          obtain ⟨hresult, hafter⟩ := Machine.writeFile_of_ok hwrite
          rw [hresult, hafter]
          rcases FileTree.writes_cases hwrite with ⟨place, hwrites⟩ | ⟨place, hlocate, hnode, rfl⟩
          · exact .inl ⟨rfl, .file houtput hwrites⟩
          · exact .inl ⟨rfl, .nullDevice houtput hlocate hnode⟩
      | error cause =>
          obtain ⟨hresult, hafter⟩ := Machine.writeFile_of_error hwrite
          rw [hresult, hafter]
          exact .inr (.inl ⟨path, cause, rfl, hwrite, rfl, rfl⟩)

theorem Lex.Reads.result_readSource {command : Lex} {source : Text}
    (h : command.Reads machine source) :
    ∃ name, machine.result (readSource command.input) = .ok (name, source) := by
  obtain ⟨bytes, hbytes, htext⟩ := h
  have hread := Command.result_readSource command.input machine
  simp only [hbytes, bind, Except.bind, FileError.decode, htext] at hread
  exact ⟨_, hread⟩

/-- After reading and scanning a source, what is left of a run is writing its tokens. -/
theorem Lex.run_of_reads {command : Lex} {source : Text} (h : command.Reads machine source)
    (hzero : command.overrides.maxStringLength ≠ some 0) :
    (machine.result command.run =
      match machine.result (command.write (command.textOf source)) with
      | .ok () => .ok ⟨(command.streamOf source).size, (command.streamOf source).errorCount⟩
      | .error failure => .error failure) ∧
    machine.after command.run = machine.after (command.write (command.textOf source)) := by
  obtain ⟨name, hread⟩ := h.result_readSource
  have hscan : command.scan source = .ok (command.streamOf source) := Lex.scan_of_ne_zero hzero _
  -- Reading leaves the machine as it is, so that what is written is the text from before.
  rw [Lex.run, Machine.result_bind, Machine.after_bind, after_readSource, hread]
  simp only [hscan, render_streamOf, Machine.result_bind, Machine.after_bind]
  cases machine.result (command.write (command.textOf source)) <;> exact ⟨rfl, rfl⟩

theorem Lex.runs_of_reads {command : Lex} {source : Text} (h : command.Reads machine source) :
    command.Runs machine (machine.result command.run) (machine.after command.run) := by
  by_cases hzero : command.overrides.maxStringLength = some 0
  · obtain ⟨name, hread⟩ := h.result_readSource
    rw [Lex.run, Machine.result_bind, Machine.after_bind, after_readSource, hread]
    simp only [Lex.scan_of_zero hzero]
    exact .failed (.refused h hzero)
  · obtain ⟨hresult, hafter⟩ := Lex.run_of_reads h hzero
    rw [hresult, hafter]
    rcases command.write_cases (command.textOf source) machine with
      ⟨hok, hputs⟩ | ⟨path, cause, houtput, hwrite, herror, hsame⟩ |
        ⟨part, cause, outlet, houtput, hpart, hlength, hfault, htaken, herror, hbroken⟩
    · rw [hok]
      exact .finished h hzero (Array.length_toList).symm (TokenStream.errorCount_eq _) hputs
    · rw [herror, hsame]
      exact .failed (.unwritten h hzero houtput hwrite)
    · rw [herror, hbroken]
      exact .failed (.brokenOff h hzero houtput hpart hlength hfault htaken)

theorem Lex.runs_of_unread {command : Lex} {failure : Failure}
    (h : machine.result (readSource command.input) = .error failure)
    (hfails : command.Fails machine failure machine) :
    command.Runs machine (machine.result command.run) (machine.after command.run) := by
  rw [Lex.run, Machine.result_bind, Machine.after_bind, after_readSource, h]
  exact .failed hfails

theorem Lex.runs (command : Lex) (machine : Machine) :
    command.Runs machine (machine.result command.run) (machine.after command.run) := by
  have hread := result_readSource command.input machine
  cases hbytes : sourceBytes machine command.input with
  | error cause =>
      rw [hbytes] at hread
      exact Lex.runs_of_unread hread (.unreadable hbytes)
  | ok bytes =>
      cases htext : Text.decode? bytes with
      | none =>
          simp only [hbytes, bind, Except.bind, FileError.decode, htext] at hread
          exact Lex.runs_of_unread hread (.noText hbytes htext)
      | some source => exact Lex.runs_of_reads ⟨bytes, hbytes, htext⟩

theorem Check.after_run (command : Check) (machine : Machine) :
    ∃ messages, machine.after command.run = { machine with messages } := by
  rw [Check.run, Machine.after_bind, after_readSource]
  cases machine.result (readSource command.input) with
  | error failure => exact ⟨machine.messages, rfl⟩
  | ok found =>
      obtain ⟨name, source⟩ := found
      dsimp only
      cases command.checkSource name source with
      | error failure => exact ⟨machine.messages, rfl⟩
      | ok report => exact ⟨machine.messages ++ report.messages, rfl⟩

end

private theorem toList_scan_name : (CoolLexer.scan ['x'] {}).1.toList =
    [⟨.identifier ['x'], ⟨0, 1, 1, 1, 0⟩⟩, ⟨.endOfInput, ⟨1, 1, 1, 2, 0⟩⟩] := by
  have hname : Lexeme.first {} ['x'] = .token (.identifier ['x']) 1 := by decide
  rw [Lexer.toList_scan, Lexer.locate_token 0 _ hname]
  change _ :: Lexer.locate _ _ _ [] = _
  rw [Lexer.locate_endOfText 0 _ rfl]
  rfl

end Command

end CoolLexer
