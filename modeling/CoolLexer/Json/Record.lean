import CoolLexer.Json.Text
import CoolLexer.Token.Stream

/-!
# Token records

In JSON a token is an object with the name of its kind, its value or `null`, and the line and column
where it starts. A stream is an array of such records.
-/

namespace CoolLexer

structure TokenRecord where
  kind : Text
  value : Option Text
  line : Nat
  column : Nat
deriving Repr, DecidableEq

def LocatedToken.record (located : LocatedToken) : TokenRecord where
  kind := located.token.kind.name
  value := located.token.value?
  line := located.span.line
  column := located.span.column

namespace TokenRecord

/-- The fields of a record, in the order in which they are written. -/
def fields (record : TokenRecord) : List (Text × Text) :=
  [("kind".toList, Json.quote record.kind),
    ("value".toList, (record.value.map Json.quote).getD "null".toList),
    ("line".toList, Text.ofNat record.line),
    ("column".toList, Text.ofNat record.column)]

/-- The record on one line, without blanks. -/
def compact (record : TokenRecord) : Text :=
  '\x7b' :: [','].intercalate
    (record.fields.map fun (name, value) => Json.quote name ++ ':' :: value) ++ ['\x7d']

/-- The record as an element of an array, one field a line, indented by two blanks a level. -/
def pretty (record : TokenRecord) : Text :=
  "  \x7b\n".toList ++ ",\n".toList.intercalate
    (record.fields.map fun (name, value) =>
      "    ".toList ++ Json.quote name ++ ": ".toList ++ value) ++ "\n  \x7d".toList

end TokenRecord

/-- A list of records as a JSON array, indented by two blanks a level. -/
def renderRecords : List TokenRecord → Text
  | [] => "[]".toList
  | records =>
      "[\n".toList ++ ",\n".toList.intercalate (records.map TokenRecord.pretty) ++ "\n]".toList

/-- A stream as a JSON array of records, with a newline at the end. -/
def TokenStream.renderJson (stream : TokenStream) : Text :=
  renderRecords (stream.toList.map LocatedToken.record) ++ ['\n']

end CoolLexer
