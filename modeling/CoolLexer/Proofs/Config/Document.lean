import CoolLexer.Config.Document
import CoolLexer.Proofs.Toml.Line
import Mathlib.Algebra.Group.Nat.Defs

/-!
# Writing and reading a configuration

The document of a configuration is read as that configuration. There is such a document as long as
the limit on string values is a number of 63 bits.
-/

namespace CoolLexer

open Toml (Value Entries)
open Toml.Statement (EndsLine IsBareKey Lines)

namespace LexerConfig

/-- The settings of the lexer in a document. -/
def entries (config : LexerConfig) : Entries :=
  [(lengthKey, .integer config.maxStringLength), (commentsKey, .boolean config.lineComments)]

theorem ofValue?_entries (config : LexerConfig) :
    ofValue? (.table .header config.entries) = some config := by
  have hlimit : Value.toNat? (.integer config.maxStringLength) = some config.maxStringLength := by
    simp [Value.toNat?]
  have hlength (limit : Nat) :
      config.entries.setting lengthKey Value.toNat? limit = some config.maxStringLength := hlimit
  have hcomments (enabled : Bool) :
      config.entries.setting commentsKey Value.toBool? enabled = some config.lineComments := rfl
  rw [ofValue?]
  simp only [Value.settings?, hlength, hcomments, Option.bind_eq_bind, Option.bind_some]
  rfl

end LexerConfig

namespace OutputFormat

/-- The settings of the output in a document. -/
def entries (format : OutputFormat) : Entries := [(key, .string format.name)]

theorem ofValue?_entries (format : OutputFormat) :
    ofValue? (.table .header format.entries) = some format :=
  ofName?_name format

end OutputFormat

namespace Config

variable (config : Config)

def entries : Entries :=
  [(lexerKey, .table .header config.lexer.entries),
    (outputKey, .table .header config.format.entries)]

/-- The statements of the document of a configuration. -/
def statements : List Toml.Statement := [
  .header [lexerKey],
  .setting [] LexerConfig.lengthKey (.integer config.lexer.maxStringLength),
  .setting [] LexerConfig.commentsKey (.boolean config.lexer.lineComments),
  .header [outputKey],
  .setting [] OutputFormat.key (.string config.format.name)]

theorem foldlM_statements :
    config.statements.foldlM Toml.Document.run {} = some ⟨config.entries, [outputKey]⟩ := rfl

theorem ofEntries?_entries : ofEntries? config.entries = some config := by
  have hlexer (lexer : LexerConfig) :
      config.entries.setting lexerKey LexerConfig.ofValue? lexer = some config.lexer :=
    config.lexer.ofValue?_entries
  have hformat (format : OutputFormat) :
      config.entries.setting outputKey OutputFormat.ofValue? format = some config.format :=
    config.format.ofValue?_entries
  rw [ofEntries?]
  simp only [hlexer, hformat, Option.bind_eq_bind, Option.bind_some]
  rfl

theorem lines_headerLine (key : Text) {t : Text} {rest : List Toml.Statement} (hkey : IsBareKey key)
    (h : Lines t rest) : Lines (headerLine key ++ t) (.header [key] :: rest) := by
  have hlines := Lines.header hkey h
  rw [headerLine, List.append_assoc]
  exact hlines

theorem lines_settingLine (key : Text) {text t : Text} {value : Value}
    {rest : List Toml.Statement} (hkey : IsBareKey key) (hvalue : EndsLine text value)
    (h : Lines t rest) :
    Lines (settingLine key text ++ t) (.setting [] key value :: rest) := by
  have hlines := Lines.setting hkey hvalue h
  rw [settingLine, List.append_assoc, List.append_assoc, List.append_assoc]
  exact hlines

theorem endsLine_booleanText (b : Bool) : EndsLine (Token.booleanText b) (.boolean b) := by
  have hword : (Token.booleanText b).all Char.isAlphanum = true := by cases b <;> decide
  apply Toml.Statement.endsLine_scalar (List.all_eq_true.mp hword)
  · cases b <;> decide
  · cases b <;> rfl

theorem endsLine_format (format : OutputFormat) :
    EndsLine ('"' :: format.name ++ ['"']) (.string format.name) := by
  have hplain : format.name.all (fun c => decide (Toml.Quoted.IsPlain c)) = true := by
    cases format <;> decide
  apply Toml.Statement.endsLine_quoted
  · intro c hc
    exact of_decide_eq_true (List.all_eq_true.mp hplain c hc)
  · cases format <;> decide

theorem lines_of_toText? {text : Text} (h : config.toText? = some text) :
    Lines text config.statements := by
  rw [toText?] at h
  split at h
  · next hlimit =>
      have houtput := lines_settingLine OutputFormat.key ⟨by decide, by decide⟩
        (endsLine_format config.format) .done
      have hcomments := lines_settingLine LexerConfig.commentsKey ⟨by decide, by decide⟩
        (endsLine_booleanText config.lexer.lineComments)
        (.empty (lines_headerLine outputKey ⟨by decide, by decide⟩ houtput))
      have hlength := lines_settingLine LexerConfig.lengthKey ⟨by decide, by decide⟩
        (Toml.Statement.endsLine_number hlimit) hcomments
      have hlexer := lines_headerLine lexerKey ⟨by decide, by decide⟩ hlength
      rw [← Option.some.inj h, statements]
      simpa only [List.append_assoc, List.cons_append, List.append_nil] using hlexer
  · cases h

/-- A configuration is written unless its limit is too large for a document. -/
theorem toText?_isSome_iff :
    config.toText?.isSome = true ↔ config.lexer.maxStringLength ≤ 2 ^ 63 - 1 := by
  rw [toText?, Toml.Scalar.integerBound]
  split
  · next hlimit =>
      simp only [Option.isSome_some, true_iff]
      omega
  · next hlimit =>
      simp only [Option.isSome_none, Bool.false_eq_true, false_iff]
      omega

theorem ofText_of_toText? {text : Text} (h : config.toText? = some text) :
    ofText text = .ok config := by
  rw [ofText, Toml.Document.entriesOf?_of_lines (config.lines_of_toText? h), foldlM_statements,
    Option.map_some]
  simp only [ofEntries?_entries]

end Config

end CoolLexer
