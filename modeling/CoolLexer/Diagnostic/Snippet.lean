import CoolLexer.Diagnostic.Basic
import CoolLexer.Source.File

/-!
# Snippets

A snippet shows a line of source with its number, and under it a row of carets that marks a range of
columns. A located diagnostic is its header line followed by the snippet of its first line.
-/

namespace CoolLexer

/-- A line of source with a range of columns to mark. -/
structure Snippet where
  line : Text
  number : Nat
  /-- First column to mark, counted from one. -/
  startColumn : Nat
  /-- One past the last column to mark. -/
  stopColumn : Nat
deriving Repr, DecidableEq

namespace Snippet

/-- The width of the line number: at least three. -/
def gutterWidth (snippet : Snippet) : Nat := max 3 (Text.ofNat snippet.number).length

def sourceRow (snippet : Snippet) : Text :=
  (Text.ofNat snippet.number).padLeft snippet.gutterWidth ++ " | ".toList ++ snippet.line

/-- The row that marks the columns; at least one caret is shown. -/
def caretRow (snippet : Snippet) : Text :=
  List.replicate snippet.gutterWidth ' ' ++ " | ".toList ++
    List.replicate (snippet.startColumn - 1) ' ' ++
    List.replicate (max 1 (snippet.stopColumn - snippet.startColumn)) '^'

/-- Both rows, without a line break at the end. -/
def render (snippet : Snippet) : Text := snippet.sourceRow ++ '\n' :: snippet.caretRow

end Snippet

namespace Diagnostic

/-- How many characters to mark: those of the span, if it stays on one line, and at least one. -/
def markWidth (diagnostic : Diagnostic) (file : SourceFile) : Nat :=
  match file.spanText diagnostic.span with
  | .ok text => if text.contains '\n' then 1 else max 1 text.length
  | .error _ => 1

/-- The first line of a located diagnostic: file name, line and column before the header. -/
def locatedHeader (diagnostic : Diagnostic) (file : SourceFile) : Text :=
  file.name ++ ':' :: Text.ofNat diagnostic.span.line ++ ':' :: Text.ofNat diagnostic.span.column ++
    ": ".toList ++ diagnostic.header

/-- The snippet of the line on which a diagnostic starts, if the file has that line. -/
def snippet? (diagnostic : Diagnostic) (file : SourceFile) : Option Snippet :=
  match file.lineAt diagnostic.span.line with
  | .ok line => some {
      line
      number := diagnostic.span.line
      startColumn := diagnostic.span.column
      stopColumn := diagnostic.span.column + diagnostic.markWidth file }
  | .error _ => none

/-- A located diagnostic with its snippet. -/
def render (diagnostic : Diagnostic) (file : SourceFile) : Text :=
  diagnostic.locatedHeader file ++
    match diagnostic.snippet? file with
    | some snippet => '\n' :: snippet.render
    | none => []

end Diagnostic

end CoolLexer
