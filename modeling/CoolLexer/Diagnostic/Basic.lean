import CoolLexer.Diagnostic.Code
import CoolLexer.Source.Span

/-!
# Diagnostics

A diagnostic is a message about a span of source. A log keeps the diagnostics of a run in the order
in which they were reported.
-/

namespace CoolLexer

/-- An error message with the place that it is about. -/
structure Diagnostic where
  message : Text
  span : Span := Span.unknown
  code : Option DiagnosticCode := none
deriving Repr, DecidableEq

/-- The first line of a diagnostic, such as `error[E1001]: Illegal character #`. -/
def Diagnostic.header (diagnostic : Diagnostic) : Text :=
  match diagnostic.code with
  | some code => "error[".toList ++ code.text ++ "]: ".toList ++ diagnostic.message
  | none => "error: ".toList ++ diagnostic.message

/-- The diagnostics reported so far, oldest first. -/
structure DiagnosticLog where
  entries : Array Diagnostic := #[]
deriving Repr, DecidableEq

namespace DiagnosticLog

def report (log : DiagnosticLog) (diagnostic : Diagnostic) : DiagnosticLog :=
  ⟨log.entries.push diagnostic⟩

def size (log : DiagnosticLog) : Nat := log.entries.size

def toList (log : DiagnosticLog) : List Diagnostic := log.entries.toList

@[simp] theorem toList_empty : toList {} = [] := rfl

@[simp] theorem toList_report (log : DiagnosticLog) (diagnostic : Diagnostic) :
    (log.report diagnostic).toList = log.toList ++ [diagnostic] :=
  Array.toList_push

theorem toList_inj {log log' : DiagnosticLog} : log.toList = log'.toList ↔ log = log' := by
  rw [toList, toList, Array.toList_inj, mk.injEq]

end DiagnosticLog

end CoolLexer
