import CoolLexer.Text

/-!
# The UTF-8 encoding of a text

Files hold bytes. A file is a text when its bytes are valid UTF-8; surrogates and overlong forms are
not.
-/

namespace CoolLexer.Text

def utf8 (t : Text) : List UInt8 := t.flatMap String.utf8EncodeChar

/-- The UTF-8 encoding of a text as the content of a file. -/
def encode (t : Text) : ByteArray := (String.ofList t).toUTF8

/-- The text that the bytes encode, if they are valid UTF-8. -/
def decode? (bytes : ByteArray) : Option Text := (String.fromUTF8? bytes).map String.toList

/-- The character at index `n`, read as a single byte when bytes `0` to `n` are all ASCII. -/
def asciiAt? (t : Text) (n : Nat) : Option Char :=
  let head := (utf8 (t.take (n + 1))).take (n + 1)
  match head[n]? with
  | some b => if head.all (· < 128) then some (Char.ofNat b.toNat) else none
  | none => none

end CoolLexer.Text
