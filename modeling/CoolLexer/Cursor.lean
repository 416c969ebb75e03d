import CoolLexer.Source.Position
import CoolLexer.Text.Utf8

/-!
# Cursors

A cursor is a place in a source together with the text that follows it. Looking ahead never moves
it. A NUL is a character like any other: the end of the source is told apart by `none`.
-/

namespace CoolLexer

structure Cursor where
  source : Text
  /-- The part of the source from this place on. -/
  rest : Text
  position : Position
deriving Repr, DecidableEq

namespace Cursor

def start (source : Text) : Cursor := ⟨source, source, Position.start⟩

/-- The character `n` places ahead. Runs of ASCII are read byte by byte. -/
def peek? (cursor : Cursor) (n : Nat) : Option Char :=
  match cursor.rest.asciiAt? n with
  | some c => some c
  | none => cursor.rest[n]?

def current? (cursor : Cursor) : Option Char := cursor.peek? 0

def atPair (cursor : Cursor) (first second : Char) : Bool :=
  cursor.current? == some first && cursor.peek? 1 == some second

def isAtEnd (cursor : Cursor) : Bool := cursor.rest.isEmpty

/-- Moves over up to `n` characters. -/
def skip (cursor : Cursor) (n : Nat) : Cursor :=
  ⟨cursor.source, cursor.rest.drop n, cursor.position.advanceBy (cursor.rest.take n)⟩

def advance (cursor : Cursor) : Option Char × Cursor := (cursor.rest.head?, cursor.skip 1)

/-- Moves over the next character if it is the given one. -/
def accept (cursor : Cursor) (c : Char) : Bool × Cursor :=
  if cursor.current? = some c then (true, cursor.skip 1) else (false, cursor)

/-- Moves over the characters that satisfy `p`, up to the first that does not, and returns them. -/
def eatWhile (cursor : Cursor) (p : Char → Bool) : Text × Cursor :=
  let eaten := cursor.rest.takeWhile p
  (eaten, ⟨cursor.source, cursor.rest.dropWhile p, cursor.position.advanceBy eaten⟩)

/-- The source from byte `start` up to the cursor. -/
def sliceFrom? (cursor : Cursor) (start : Nat) : Option Text :=
  cursor.source.slice? start cursor.position.offset

@[simp] theorem rest_skip (cursor : Cursor) (n : Nat) :
    (cursor.skip n).rest = cursor.rest.drop n := rfl

@[simp] theorem source_skip (cursor : Cursor) (n : Nat) :
    (cursor.skip n).source = cursor.source := rfl

end Cursor

end CoolLexer
