import CoolLexer.Source.Span

/-!
# Source files

A source file has a display name and a content. Its lines are found through the byte offsets at
which they start.
-/

namespace CoolLexer

/-- Why a line or a range of a source cannot be shown. -/
inductive SourceError where
  | unknownFile (file : FileId)
  | reversedSpan (start stop : Nat)
  | spanOutOfBounds (size start stop : Nat)
  | noSuchLine (line count : Nat)
deriving Repr, DecidableEq

def SourceError.message : SourceError → Text
  | .unknownFile file => "Unknown file id: ".toList ++ Text.ofNat file
  | .reversedSpan start stop =>
      "Invalid span: start ".toList ++ Text.ofNat start ++ " > end ".toList ++ Text.ofNat stop
  | .spanOutOfBounds size start stop =>
      "Span out of bounds: file has ".toList ++ Text.ofNat size ++ " bytes, span is ".toList ++
        Text.ofNat start ++ "..".toList ++ Text.ofNat stop
  | .noSuchLine line count =>
      "Invalid line number: ".toList ++ Text.ofNat line ++ " (file has ".toList ++
        Text.ofNat count ++ " lines)".toList

/-- A named text that diagnostics refer to. -/
structure SourceFile where
  /-- A path, or the name shown for standard input. -/
  name : Text
  content : Text
deriving Repr, DecidableEq

namespace SourceFile

/-- Byte offset and line starts found so far, after one more character. -/
def lineStartStep (found : Nat × Array Nat) (c : Char) : Nat × Array Nat :=
  let next := found.1 + c.utf8Size
  (next, if c = '\n' then found.2.push next else found.2)

/-- The byte offsets at which the lines of a text start. -/
def lineStarts (content : Text) : Array Nat := (content.foldl lineStartStep (0, #[0])).2

/-- A line as it is shown: without a carriage return at its end. -/
def stripReturn (line : Text) : Text :=
  if line.getLast? = some '\r' then line.dropLast else line

/-- The text of a line, counted from one, without its line break. -/
def lineAt (file : SourceFile) (line : Nat) : Except SourceError Text :=
  let starts := lineStarts file.content
  if line = 0 then .error (.noSuchLine line starts.size)
  else
    match starts[line - 1]? with
    | none => .error (.noSuchLine line starts.size)
    | some start =>
        let stop := match starts[line]? with
          | some next => next - 1
          | none => file.content.byteLength
        match file.content.slice? start stop with
        | some text => .ok (stripReturn text)
        | none => .error (.spanOutOfBounds file.content.byteLength start stop)

def spanText (file : SourceFile) (span : Span) : Except SourceError Text :=
  if span.stop < span.start then .error (.reversedSpan span.start span.stop)
  else
    match file.content.slice? span.start span.stop with
    | some text => .ok text
    | none => .error (.spanOutOfBounds file.content.byteLength span.start span.stop)

end SourceFile

end CoolLexer
