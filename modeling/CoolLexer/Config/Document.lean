import CoolLexer.Config.Basic
import CoolLexer.Toml.Document

/-!
# Configuration files

A configuration is written as a TOML document with the tables `lexer` and `output`. Reading it, what
is missing has its default and what is not known is ignored.
-/

namespace CoolLexer

/-- Why a text is not a configuration. -/
inductive DocumentError where
  | malformed
  /-- A setting has a value of the wrong type or out of range. -/
  | wrongValue
deriving Repr, DecidableEq

def DocumentError.message : DocumentError → Text
  | malformed => "not a TOML document".toList
  | wrongValue => "a setting has a value that it cannot take".toList

namespace Toml.Value

/-- The value of a setting that counts. -/
def toNat? : Value → Option Nat
  | integer n => if 0 ≤ n then some n.toNat else none
  | _ => none

/-- The value of a setting that is on or off. -/
def toBool? : Value → Option Bool
  | boolean b => some b
  | _ => none

/-- Whether a value is a table or an array without content. -/
def isEmptyContainer : Value → Bool
  | array elements => elements.isEmpty
  | table _ entries => entries.isEmpty
  | tables elements => elements.isEmpty
  | _ => false

/-- The name that a value stands for: a string, or the only key of a table whose value is empty. -/
def toName? : Value → Option Text
  | string name => some name
  | table _ [(name, content)] => if content.isEmptyContainer then some name else none
  | _ => none

/-- The settings of a group, by their names: those of a table, or those of an array in the order of
the names. -/
def settings? (names : List Text) : Value → Option Entries
  | table _ entries => some entries
  | array elements => some (names.zip elements)
  | tables elements => some (names.zip (elements.map (table .header)))
  | dateTime => some []
  | _ => none

end Toml.Value

/-- The value of a setting, or the default if it is missing. -/
def Toml.Entries.setting (entries : Toml.Entries) (name : Text) (read : Toml.Value → Option α)
    (default : α) : Option α :=
  match entries.lookup name with
  | some value => read value
  | none => some default

namespace LexerConfig

def lengthKey : Text := "max_string_length".toList

def commentsKey : Text := "line_comments".toList

def ofValue? (value : Toml.Value) : Option LexerConfig := do
  let entries ← value.settings? [lengthKey, commentsKey]
  let standard : LexerConfig := {}
  return {
    maxStringLength := ← entries.setting lengthKey Toml.Value.toNat? standard.maxStringLength
    lineComments := ← entries.setting commentsKey Toml.Value.toBool? standard.lineComments }

end LexerConfig

namespace OutputFormat

def key : Text := "format".toList

def ofValue? (value : Toml.Value) : Option OutputFormat := do
  let entries ← value.settings? [key]
  entries.setting key (fun value => value.toName?.bind ofName?) .lines

end OutputFormat

namespace Config

def lexerKey : Text := "lexer".toList

def outputKey : Text := "output".toList

def ofEntries? (entries : Toml.Entries) : Option Config := do
  let standard : Config := {}
  return {
    lexer := ← entries.setting lexerKey LexerConfig.ofValue? standard.lexer
    format := ← entries.setting outputKey OutputFormat.ofValue? standard.format }

def ofText (t : Text) : Except DocumentError Config :=
  match Toml.Document.entriesOf? t with
  | none => .error .malformed
  | some entries =>
      match ofEntries? entries with
      | none => .error .wrongValue
      | some config => .ok config

/-- A setting on a line of its own. -/
def settingLine (key value : Text) : Text := key ++ " = ".toList ++ value ++ ['\n']

/-- The header of a group of settings on a line of its own. -/
def headerLine (key : Text) : Text := '[' :: key ++ "]\n".toList

/-- A configuration as a document; integers in a document have 64 bits with a sign. -/
def toText? (config : Config) : Option Text :=
  if config.lexer.maxStringLength < Toml.Scalar.integerBound then
    some (headerLine lexerKey ++
      settingLine LexerConfig.lengthKey (Text.ofNat config.lexer.maxStringLength) ++
      settingLine LexerConfig.commentsKey (Token.booleanText config.lexer.lineComments) ++
      '\n' :: headerLine outputKey ++
      settingLine OutputFormat.key ('"' :: config.format.name ++ ['"']))
  else none

/-- Whether a run may use the configuration: the limit on string values is not zero. -/
def isValid (config : Config) : Bool := config.lexer.maxStringLength ≠ 0

end Config

end CoolLexer
