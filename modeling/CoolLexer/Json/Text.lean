import CoolLexer.Text

/-!
# JSON strings

A JSON string escapes the quotation mark, the backslash and the control characters below the blank,
and nothing else.
-/

namespace CoolLexer.Json

/-- A hexadecimal digit, with small letters. -/
def hexDigit (n : Nat) : Char := Nat.digitChar (n % 16)

/-- A character as it is written inside a JSON string. -/
def escape (c : Char) : Text :=
  if c = '"' then ['\\', '"']
  else if c = '\\' then ['\\', '\\']
  else if c = '\x08' then ['\\', 'b']
  else if c = '\t' then ['\\', 't']
  else if c = '\n' then ['\\', 'n']
  else if c = '\x0c' then ['\\', 'f']
  else if c = '\r' then ['\\', 'r']
  else if c.toNat < 0x20 then ['\\', 'u', '0', '0', hexDigit (c.toNat / 16), hexDigit c.toNat]
  else [c]

def quote (t : Text) : Text := '"' :: t.flatMap escape ++ ['"']

end CoolLexer.Json
