import CoolLexer.Toml.Quoted

/-!
# TOML documents

A document is a sequence of statements, each on a line of its own: a header that begins a table, or
a key with its value. Values may nest to a depth of 79, and a key may have as many parts.
-/

namespace CoolLexer.Toml

open Quoted (isBlank isPrintable afterNewline?)

inductive Statement where
  | header (path : List Text)
  | arrayHeader (path : List Text)
  | setting (path : List Text) (key : Text) (value : Value)
deriving Repr

namespace Statement

def skipBlanks (t : Text) : Text := t.dropWhile isBlank

/-- The text after blanks, line breaks and comments; `comment` tells that a comment is open. -/
def skipLines? (comment : Bool) : Text → Option Text
  | [] => if comment then none else some []
  | '\r' :: '\n' :: rest => skipLines? false rest
  | c :: rest =>
      if c = '\n' then skipLines? false rest
      else if comment then if isPrintable c then skipLines? true rest else none
      else if isBlank c then skipLines? false rest
      else if c = '#' then skipLines? true rest
      else some (c :: rest)

/-- The text after the end of a line, which may have a comment. -/
def afterLine? (t : Text) : Option Text :=
  match skipBlanks t with
  | [] => some []
  | '#' :: rest =>
      match rest.dropWhile isPrintable with
      | [] => some []
      | rest => afterNewline? rest
  | rest => afterNewline? rest

/-- The characters of keys without quotes. -/
def isKeyChar (c : Char) : Bool := c.isAlphanum || c == '-' || c == '_'

/-- A part of a key, and the text after it. -/
def simpleKey? (t : Text) : Option (Text × Text) :=
  match t.takeWhile isKeyChar with
  | [] => Quoted.line? t
  | key => some (key, t.dropWhile isKeyChar)

/-- A key of at most `size` parts, separated by dots: all parts but the last, the last, and the text
after it. -/
def keyPath? : Nat → Text → Option (List Text × Text × Text)
  | 0, _ => none
  | size + 1, t => do
      let (key, rest) ← simpleKey? (skipBlanks t)
      match skipBlanks rest with
      | '.' :: rest =>
          let (path, last, rest) ← keyPath? size rest
          return (key :: path, last, rest)
      | rest => return ([], key, rest)

/-- The greatest depth of nested values, and the greatest number of parts of a key. -/
def maxDepth : Nat := 79

/-- The characters of scalars other than strings. -/
def isScalarChar (c : Char) : Bool :=
  c.isAlphanum || c == '+' || c == '-' || c == '_' || c == '.' || c == ':'

/-- The run of characters of a scalar, and the text after it. A blank in front of a digit is part of
the run, since it can only stand between a date and a time. -/
def scalarRun (t : Text) : Text × Text :=
  let run := t.takeWhile isScalarChar
  match t.dropWhile isScalarChar with
  | ' ' :: rest =>
      if rest.head?.any Char.isDigit then
        (run ++ ' ' :: rest.takeWhile isScalarChar, rest.dropWhile isScalarChar)
      else (run, ' ' :: rest)
  | rest => (run, rest)

/-- The elements of an array after those `read` backwards, and the text after its bracket. -/
def elements? (value? : Text → Option (Value × Text)) (read : List Value) :
    Nat → Text → Option (List Value × Text)
  | 0, _ => none
  | fuel + 1, t => do
      match ← skipLines? false t with
      | ']' :: rest => return (read.reverse, rest)
      | t =>
          let (value, rest) ← value? t
          match ← skipLines? false rest with
          | ',' :: rest => elements? value? (value :: read) fuel rest
          | ']' :: rest => return ((value :: read).reverse, rest)
          | _ => none

/-- A key and its value, and the text after them. -/
def pair? (value? : Text → Option (Value × Text)) (t : Text) :
    Option ((List Text × Text × Value) × Text) := do
  let (path, key, rest) ← keyPath? maxDepth t
  match skipBlanks rest with
  | '=' :: rest =>
      let (value, rest) ← value? (skipBlanks rest)
      return ((path, key, value), rest)
  | _ => none

/-- The pairs of a table in braces after those `read` backwards, and the text after its brace. -/
def pairs? (value? : Text → Option (Value × Text)) (read : List (List Text × Text × Value)) :
    Nat → Text → Option (List (List Text × Text × Value) × Text)
  | 0, _ => none
  | fuel + 1, t => do
      let (pair, rest) ← pair? value? t
      match skipBlanks rest with
      | ',' :: rest => pairs? value? (pair :: read) fuel rest
      | '\x7d' :: rest => return ((pair :: read).reverse, rest)
      | _ => none

/-- The value that a text starts with, in which values nest at most to the given depth, and the text
after it. -/
def value? : Nat → Text → Option (Value × Text)
  | depth, t =>
      match depth, t with
      | _, '"' :: _ | _, '\x27' :: _ => (Quoted.string? t).map fun (s, rest) => (.string s, rest)
      | depth + 1, '[' :: rest => do
          let (elements, rest) ← elements? (value? depth) [] (rest.length + 1) rest
          return (.array elements, rest)
      | depth + 1, '\x7b' :: rest =>
          match skipBlanks rest with
          | '\x7d' :: rest => some (.table .inline [], rest)
          | rest => do
              let (pairs, rest) ← pairs? (value? depth) [] (rest.length + 1) rest
              return (← Value.ofPairs? pairs, rest)
      | _, t =>
          let (run, rest) := scalarRun t
          (Scalar.ofRun? run).map (·, rest)

/-- The statement that a text starts with, and the text after its line. -/
def first? : Text → Option (Statement × Text)
  | '[' :: '[' :: rest => do
      let (path, key, rest) ← keyPath? maxDepth rest
      match rest with
      | ']' :: ']' :: rest => return (.arrayHeader (path ++ [key]), ← afterLine? rest)
      | _ => none
  | '[' :: rest => do
      let (path, key, rest) ← keyPath? maxDepth rest
      match rest with
      | ']' :: rest => return (.header (path ++ [key]), ← afterLine? rest)
      | _ => none
  | t => do
      let ((path, key, value), rest) ← pair? (value? maxDepth) t
      return (.setting path key value, ← afterLine? rest)

/-- The statements of a text after those `read` backwards. -/
def all? (read : List Statement) : Nat → Text → Option (List Statement)
  | 0, _ => none
  | fuel + 1, t =>
      match skipBlanks t with
      | [] => some read.reverse
      | c :: rest =>
          if c == '#' || c == '\n' || c == '\r' then do
            all? read fuel (← afterLine? (c :: rest))
          else do
            let (statement, rest) ← first? (c :: rest)
            all? (statement :: read) fuel rest

end Statement

/-- The entries of a document, and the path of the table begun last. -/
structure Document where
  entries : Entries := []
  current : List Text := []

namespace Document

/-- Changes the table at the end of the path of a header. -/
def changeAt (document : Document) (path : List Text) (change : Entries → Option Entries) :
    Option Entries :=
  Entries.update .header (fun _ => change) path .header document.entries

def run (document : Document) : Statement → Option Document
  | .header path => do
      let key ← path.getLast?
      return ⟨← document.changeAt path.dropLast (Entries.beginTable key), path⟩
  | .arrayHeader path => do
      let key ← path.getLast?
      return ⟨← document.changeAt path.dropLast (Entries.beginElement key), path⟩
  | .setting path key value => do
      let entries ← document.changeAt document.current
        (Entries.defineAt .dottedKey path key value .header)
      return { document with entries }

/-- The entries of the document that a text denotes, if it is well formed. A byte order mark at the
start is skipped. -/
def entriesOf? (t : Text) : Option Entries := do
  let t := if t.head? = some '\ufeff' then t.tail else t
  let statements ← Statement.all? [] (t.length + 1) t
  return (← statements.foldlM run {}).entries

end Document

end CoolLexer.Toml
