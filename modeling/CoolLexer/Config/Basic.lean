import CoolLexer.Lexer.Config
import CoolLexer.Rendering.Basic

/-!
# Configuration

A configuration holds the options of the lexer and the format in which token streams are written.
Options of the command line override it.
-/

namespace CoolLexer

inductive OutputFormat where
  /-- One token a line. -/
  | lines
  /-- All tokens on one line. -/
  | spaced
  /-- A JSON array of token records. -/
  | json
deriving Repr, DecidableEq

namespace OutputFormat

/-- The name of a format in configuration files and on the command line. -/
def name : OutputFormat → Text
  | lines => "lines".toList
  | spaced => "spaced".toList
  | json => "json".toList

def ofName? (name : Text) : Option OutputFormat :=
  [lines, spaced, json].find? (·.name == name)

/-- The separator of the formats that are renderings. -/
def separator? : OutputFormat → Option Separator
  | lines => some .newline
  | spaced => some .space
  | json => none

theorem ofName?_name (format : OutputFormat) : ofName? format.name = some format := by
  cases format <;> decide

end OutputFormat

structure Config where
  lexer : LexerConfig := {}
  format : OutputFormat := .lines
deriving Repr, DecidableEq

structure LexerOverrides where
  /-- Switches line comments on, whatever the configuration says. -/
  lineComments : Bool := false
  /-- Replaces the limit on string values. -/
  maxStringLength : Option Nat := none
deriving Repr, DecidableEq

/-- The options that result from overriding `base`; none if the limit asked for is zero. -/
def LexerOverrides.apply? (overrides : LexerOverrides) (base : LexerConfig) : Option LexerConfig :=
  let lineComments := base.lineComments || overrides.lineComments
  match overrides.maxStringLength with
  | some 0 => none
  | some limit => some ⟨limit, lineComments⟩
  | none => some ⟨base.maxStringLength, lineComments⟩

end CoolLexer
