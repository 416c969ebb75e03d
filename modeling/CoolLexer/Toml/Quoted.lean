import CoolLexer.Toml.Scalar

/-!
# TOML strings

Basic strings have escapes and literal strings have none. Either may run over several lines between
three quotes; a line break at their start is not part of them, and every line break in them is read
as a single newline.
-/

namespace CoolLexer.Toml.Quoted

/-- The characters allowed in comments, and in strings where they have no other meaning. -/
def isPrintable (c : Char) : Bool := c == '\t' || (0x20 ≤ c.toNat && c.toNat ≠ 0x7f)

/-- The characters that separate the parts of a line. -/
def isBlank (c : Char) : Bool := c == ' ' || c == '\t'

/-- The text after a line break. -/
def afterNewline? : Text → Option Text
  | '\n' :: rest => some rest
  | '\r' :: '\n' :: rest => some rest
  | _ => none

/-- The character that a backslash followed by `c` stands for. -/
def unescape? : Char → Option Char
  | 'b' => some '\x08'
  | 't' => some '\t'
  | 'n' => some '\n'
  | 'f' => some '\x0c'
  | 'r' => some '\r'
  | '"' => some '"'
  | '\\' => some '\\'
  | _ => none

/-- The character with a given code point. -/
def charOf? (code : Nat) : Option Char := if code.isValidChar then some (Char.ofNat code) else none

/-- What the next characters of a basic string are part of. -/
inductive State where
  | plain
  /-- A code point of which `digits` digits are still to come. -/
  | code (digits value : Nat)
  /-- The blanks and line breaks after a backslash at the end of a line. -/
  | gap

/-- What follows three quotes: up to two more quotes belong to the string. -/
def closeLines (quote : Char) (read : Text) : Text → Text × Text
  | a :: b :: rest =>
      if a = quote && b = quote then (read.reverse ++ [quote, quote], rest)
      else if a = quote then (read.reverse ++ [quote], b :: rest)
      else (read.reverse, a :: b :: rest)
  | [a] => if a = quote then (read.reverse ++ [quote], []) else (read.reverse, [a])
  | [] => (read.reverse, [])

/-- A basic string, of which `read` has been read backwards, and the text after it. -/
def basic? (lines : Bool) (read : Text) : State → Text → Option (Text × Text)
  | _, [] => none
  | .code digits value, c :: rest => do
      let value := value * 16 + (← Text.hexValue? c)
      if digits ≤ 1 then basic? lines ((← charOf? value) :: read) .plain rest
      else basic? lines read (.code (digits - 1) value) rest
  | state, c :: rest =>
      let inGap := match state with
        | .gap => true
        | _ => false
      match c, rest with
      | '"', rest =>
          if lines then
            match rest with
            | '"' :: '"' :: rest => some (closeLines '"' read rest)
            | rest => basic? lines ('"' :: read) .plain rest
          else some (read.reverse, rest)
      | '\\', 'u' :: rest => basic? lines read (.code 4 0) rest
      | '\\', 'U' :: rest => basic? lines read (.code 8 0) rest
      | '\\', e :: rest =>
          if lines && (afterNewline? ((e :: rest).dropWhile isBlank)).isSome then
            basic? lines read .gap (e :: rest)
          else
            match unescape? e with
            | some c => basic? lines (c :: read) .plain rest
            | none => none
      | '\r', '\n' :: rest =>
          if inGap then basic? lines read .gap rest
          else if lines then basic? lines ('\n' :: read) .plain rest
          else none
      | c, rest =>
          if inGap && (isBlank c || c == '\n') then basic? lines read .gap rest
          else if isPrintable c && c ≠ '\\' || lines && c == '\n' then
            basic? lines (c :: read) .plain rest
          else none

/-- A literal string, of which `read` has been read backwards, and the text after it. -/
def literal? (lines : Bool) (read : Text) : Text → Option (Text × Text)
  | [] => none
  | '\x27' :: rest =>
      if lines then
        match rest with
        | '\x27' :: '\x27' :: rest => some (closeLines '\x27' read rest)
        | rest => literal? lines ('\x27' :: read) rest
      else some (read.reverse, rest)
  | '\r' :: '\n' :: rest => if lines then literal? lines ('\n' :: read) rest else none
  | c :: rest =>
      if isPrintable c || lines && c == '\n' then literal? lines (c :: read) rest else none

/-- The text of a string over several lines, without the line break at its start. -/
def body (t : Text) : Text := (afterNewline? t).getD t

/-- The string on one line that a text starts with, and the text after it. -/
def line? : Text → Option (Text × Text)
  | '"' :: rest => basic? false [] .plain rest
  | '\x27' :: rest => literal? false [] rest
  | _ => none

/-- The string that a text starts with, and the text after it. -/
def string? : Text → Option (Text × Text)
  | '"' :: '"' :: '"' :: rest => basic? true [] .plain (body rest)
  | '\x27' :: '\x27' :: '\x27' :: rest => literal? true [] (body rest)
  | t => line? t

end CoolLexer.Toml.Quoted
