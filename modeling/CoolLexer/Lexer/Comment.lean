import CoolLexer.Text

/-!
# Comments

Block comments nest. A line comment runs up to the newline, which is not part of it.
-/

namespace CoolLexer.Comment

/-- The length of a text up to and including the `*)` that closes the comment around it, where
`depth` further comments inside it are open and `used` characters have been counted already. -/
def closeAfter? (depth used : Nat) : Text → Option Nat
  | '(' :: '*' :: rest => closeAfter? (depth + 1) (used + 2) rest
  | '*' :: ')' :: rest =>
      match depth with
      | 0 => some (used + 2)
      | depth + 1 => closeAfter? depth (used + 2) rest
  | _ :: rest => closeAfter? depth (used + 1) rest
  | [] => none

/-- The length of the rest of a block comment, after its `(*`. -/
def blockLength? (body : Text) : Option Nat := closeAfter? 0 0 body

/-- The length of the rest of a line comment, after its `--`. -/
def lineLength (body : Text) : Nat := (body.takeWhile (· != '\n')).length

private theorem closeAfter?_le (depth used : Nat) (t : Text) {n : Nat}
    (h : closeAfter? depth used t = some n) : n ≤ used + t.length := by
  fun_induction closeAfter? depth used t <;> simp_all <;> grind

theorem blockLength?_le {t : Text} {n : Nat} (h : blockLength? t = some n) : n ≤ t.length := by
  simpa using closeAfter?_le 0 0 t h

theorem lineLength_le (t : Text) : lineLength t ≤ t.length :=
  (List.takeWhile_prefix _).length_le

end CoolLexer.Comment
