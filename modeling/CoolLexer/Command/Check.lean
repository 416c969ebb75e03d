import CoolLexer.Command.Source
import CoolLexer.Diagnostic.Snippet
import CoolLexer.Source.Map

/-!
# Checking a source

The command scans a source and shows each of its lexical errors with the line that it is on.
-/

namespace CoolLexer.Command

variable {m : Type → Type} [Monad m] [Storage m]

/-- What to scan, and how. -/
structure Check where
  /-- A file; without one the standard input is read. -/
  input : Option Text := none
  overrides : LexerOverrides := {}
  config : Config := {}

/-- The lexical errors of a source. -/
structure CheckReport where
  name : Text
  /-- The errors as they are shown, in the order of the source. -/
  diagnostics : List Text
deriving Repr, DecidableEq

namespace CheckReport

def isClean (report : CheckReport) : Bool := report.diagnostics.isEmpty

/-- What is shown of a report: every error, and their number if there are any. -/
def messages (report : CheckReport) : Text :=
  (report.diagnostics.map (· ++ ['\n'])).flatten ++
    if report.isClean then []
    else report.name ++ ": ".toList ++ Text.ofNat report.diagnostics.length ++
      " lexical error(s) found\n".toList

end CheckReport

namespace Check

def checkSource (command : Check) (name source : Text) : Except Failure CheckReport :=
  match lexerOptions command.config command.overrides with
  | .error failure => .error failure
  | .ok options =>
      let added := SourceMap.add {} name source
      let (_, log) := CoolLexer.scan source options added.1
      match h : added.2.get added.1 with
      | .ok found => .ok ⟨name, log.toList.map (·.render found)⟩
      | .error _ => nomatch (SourceMap.get_add {} name source).symm.trans h

/-- Reads the source, scans it and shows its errors. -/
def run (command : Check) : m (Except Failure CheckReport) := do
  match ← readSource command.input with
  | .error failure => return .error failure
  | .ok (name, source) =>
      match command.checkSource name source with
      | .error failure => return .error failure
      | .ok report =>
          Storage.writeMessage report.messages
          return .ok report

end Check

end CoolLexer.Command
