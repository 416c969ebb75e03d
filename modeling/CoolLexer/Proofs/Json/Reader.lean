import CoolLexer.Text.Digits

/-!
# Reading JSON

The reader takes the JSON texts whose numbers are natural numbers and whose strings have no escaped
surrogates. Any blanks may stand between the parts of a text.
-/

namespace CoolLexer.Json

inductive Value where
  | null
  | boolean (value : Bool)
  | number (n : Nat)
  | string (text : Text)
  | array (items : List Value)
  | object (members : List (Text × Value))

def isBlank (c : Char) : Bool := c == ' ' || c == '\n' || c == '\t' || c == '\r'

def skipBlanks (t : Text) : Text := t.dropWhile isBlank

/-- The character with the given hexadecimal digits for its number. -/
def ofHex? (digits : Text) : Option Char :=
  if digits.all (Text.isDigitIn 16) && (Text.number 16 digits).isValidChar then
    some (Char.ofNat (Text.number 16 digits))
  else none

/-- What an escape of two characters stands for. -/
def unescape? : Char → Option Char
  | 'b' => some '\x08'
  | 't' => some '\t'
  | 'n' => some '\n'
  | 'f' => some '\x0c'
  | 'r' => some '\r'
  | c => if c = '"' || c = '\\' || c = '/' then some c else none

/-- The text of a string, of which the opening quotation mark has been read, and the text behind
it. -/
def readChars : Text → Option (Text × Text)
  | [] => none
  | c :: rest =>
      if c = '"' then some ([], rest)
      else if c = '\\' then
        match rest with
        | [] => none
        | 'u' :: d₁ :: d₂ :: d₃ :: d₄ :: rest => do
            let c ← ofHex? [d₁, d₂, d₃, d₄]
            let (t, rest) ← readChars rest
            return (c :: t, rest)
        | e :: rest => do
            let c ← unescape? e
            let (t, rest) ← readChars rest
            return (c :: t, rest)
      else if c.toNat < 0x20 then none
      else do
        let (t, rest) ← readChars rest
        return (c :: t, rest)
termination_by structural t => t

/-- What a run of letters and digits stands for. A number has no needless zeros. -/
def literal? (word : Text) : Option Value :=
  if word.all Char.isDigit && word = Text.ofNat (Text.decimal word) then
    some (.number (Text.decimal word))
  else if word = "null".toList then some .null
  else if word = "true".toList then some (.boolean true)
  else if word = "false".toList then some (.boolean false)
  else none

def readLiteral (t : Text) : Option (Value × Text) :=
  (literal? (t.takeWhile Char.isAlphanum)).map (·, t.dropWhile Char.isAlphanum)

variable {α : Type}

/-- At most `size` items with commas between them, and the closing bracket. -/
def readItems (item : Text → Option (α × Text)) (close : Char) :
    Nat → Text → Option (List α × Text)
  | 0, _ => none
  | size + 1, t => do
      let (first, rest) ← item t
      match skipBlanks rest with
      | [] => none
      | c :: rest =>
          if c = ',' then
            let (others, rest) ← readItems item close size rest
            return (first :: others, rest)
          else if c = close then some ([first], rest)
          else none

/-- The items of a list, of which the opening bracket has been read. There are fewer of them than
characters. -/
def readList (item : Text → Option (α × Text)) (close : Char) (t : Text) :
    Option (List α × Text) :=
  readItems item close t.length t <|>
    match skipBlanks t with
    | [] => none
    | c :: rest => if c = close then some ([], rest) else none

def readMember (value : Text → Option (Value × Text)) (t : Text) :
    Option ((Text × Value) × Text) :=
  match skipBlanks t with
  | '"' :: rest => do
      let (name, rest) ← readChars rest
      match skipBlanks rest with
      | ':' :: rest => do
          let (v, rest) ← value rest
          return ((name, v), rest)
      | _ => none
  | _ => none

/-- A value that is nested less deep than `depth`, and the text behind it. -/
def readValue : Nat → Text → Option (Value × Text)
  | 0, _ => none
  | depth + 1, t =>
      match skipBlanks t with
      | '"' :: rest => (readChars rest).map fun (text, rest) => (.string text, rest)
      | '[' :: rest =>
          (readList (readValue depth) ']' rest).map fun (items, rest) => (.array items, rest)
      | '\x7b' :: rest =>
          (readList (readMember (readValue depth)) '\x7d' rest).map fun (members, rest) =>
            (.object members, rest)
      | t => readLiteral t

/-- The value of a whole text, which cannot be nested deeper than it is long. -/
def read? (t : Text) : Option Value :=
  match readValue t.length t with
  | some (value, rest) => if (skipBlanks rest).isEmpty then some value else none
  | none => none

example : read? "[ \x7b\"a\": 1, \"b\" :\"\\u00e9\\/\"\x7d,null ]".toList =
    some (.array [.object [(['a'], .number 1), (['b'], .string ['é', '/'])], .null]) := by cbv

end CoolLexer.Json
