import CoolLexer.Text

/-!
# Diagnostic codes

A code names a kind of diagnostic: a letter for its severity and a number of at least four digits.
-/

namespace CoolLexer

/-- The code of a kind of diagnostic, such as `E1001`. -/
structure DiagnosticCode where
  /-- `E` for errors. -/
  severity : Text
  number : Nat
deriving Repr, DecidableEq

namespace DiagnosticCode

def error (number : Nat) : DiagnosticCode := ⟨['E'], number⟩

/-- The code as it is written: the number is filled up with zeros to four digits. -/
def text (code : DiagnosticCode) : Text := code.severity ++ (Text.ofNat code.number).leftpad 4 '0'

/-- The code with the name of its type, for logs. -/
def inspect (code : DiagnosticCode) : Text := "DiagnosticCode(".toList ++ code.text ++ [')']

end DiagnosticCode

end CoolLexer
