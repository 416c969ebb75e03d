import CoolLexer.Text

/-!
# TOML values

A document is a table of entries in the order of their first definition. A table remembers how it
came about, because that decides which later statements may add to it.
-/

namespace CoolLexer.Toml

/-- How a table came about. -/
inductive TableStyle where
  /-- By a header of its own; the top of a document counts as one. -/
  | header
  /-- As a table that the path of a header leads through. -/
  | implied
  /-- As a table that a dotted key leads through. -/
  | dotted
  | inline
  /-- As a table that a dotted key in braces leads through. -/
  | inlineDotted
deriving Repr, DecidableEq

/-- A value. Of floats and dates only their form is known. -/
inductive Value where
  | string (text : Text)
  | integer (n : Int)
  | float
  | boolean (b : Bool)
  | dateTime
  | array (elements : List Value)
  | table (style : TableStyle) (entries : List (Text × Value))
  /-- An array of tables, each begun by a header in double brackets. -/
  | tables (elements : List (List (Text × Value)))
deriving Repr

abbrev Entries := List (Text × Value)

/-- The three places where a path of keys is written. -/
inductive PathKind where
  | header
  | dottedKey
  | inlineKey
deriving Repr, DecidableEq

namespace PathKind

/-- The style of the tables that a path brings about. -/
def style : PathKind → TableStyle
  | header => .implied
  | dottedKey => .dotted
  | inlineKey => .inlineDotted

/-- Whether a path may lead through a table of a given style. -/
def enters : PathKind → TableStyle → Bool
  | header, .header | header, .implied | header, .dotted => true
  | dottedKey, .implied | dottedKey, .dotted => true
  | inlineKey, .inlineDotted => true
  | _, _ => false

end PathKind

namespace Entries

def replace (entries : Entries) (key : Text) (value : Value) : Entries :=
  entries.map fun entry => if entry.1 = key then (key, value) else entry

/-- Changes the table at the end of a path. The path leads into the last element of an array of
tables, and brings about the tables that are missing. -/
def update (kind : PathKind) (change : TableStyle → Entries → Option Entries) :
    List Text → TableStyle → Entries → Option Entries
  | [], style, entries => change style entries
  | key :: path, _, entries =>
      match entries.lookup key with
      | none => do
          let inner ← update kind change path kind.style []
          return entries ++ [(key, .table kind.style inner)]
      | some (.table style inner) =>
          if kind.enters style then do
            let inner ← update kind change path style inner
            return replace entries key (.table style inner)
          else none
      | some (.tables elements) => do
          let last ← elements.getLast?
          let last ← update kind change path .header last
          return replace entries key (.tables (elements.dropLast ++ [last]))
      | some _ => none

/-- Adds an entry to a table; a key is defined once only. -/
def define (entries : Entries) (key : Text) (value : Value) : Option Entries :=
  if (entries.lookup key).isSome then none else some (entries ++ [(key, value)])

/-- Adds an entry whose key is dotted if `path` is not empty; dotted keys add to no other tables
than those brought about by dotted keys. -/
def defineAt (kind : PathKind) (path : List Text) (key : Text) (value : Value) :
    TableStyle → Entries → Option Entries :=
  update kind (fun style entries =>
    if path.isEmpty || style = kind.style then define entries key value else none) path

/-- Begins the table of a header. A table that a header has implied so far may be begun. -/
def beginTable (key : Text) (entries : Entries) : Option Entries :=
  match entries.lookup key with
  | none => some (entries ++ [(key, .table .header [])])
  | some (.table .implied inner) => some (replace entries key (.table .header inner))
  | some _ => none

/-- Begins the next element of an array of tables. -/
def beginElement (key : Text) (entries : Entries) : Option Entries :=
  match entries.lookup key with
  | none => some (entries ++ [(key, .tables [[]])])
  | some (.tables elements) => some (replace entries key (.tables (elements ++ [[]])))
  | some _ => none

end Entries

/-- A table in braces, made of its pairs of dotted key and value. -/
def Value.ofPairs? (pairs : List (List Text × Text × Value)) : Option Value := do
  let entries ← pairs.foldlM (fun entries (path, key, value) =>
    Entries.defineAt .inlineKey path key value .inline entries) []
  return .table .inline entries

end CoolLexer.Toml
