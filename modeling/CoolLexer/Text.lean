/-!
# Text

A text is a list of characters. Positions in a text are counted in bytes of its UTF-8 encoding, so
this module measures a text in bytes and cuts it between two byte offsets. A cut inside the
encoding of a character, or beyond the end, is refused.
-/

namespace CoolLexer

/-- A text is read and written as the list of its characters. -/
abbrev Text := List Char

namespace Text

def byteLength (t : Text) : Nat := t.foldl (fun n c => n + c.utf8Size) 0

/-- How many characters the first `n` bytes hold, counting on from `count`. -/
def charIndexFrom (count : Nat) : Text → Nat → Option Nat
  | _, 0 => some count
  | [], _ + 1 => none
  | c :: t, n + 1 =>
      if c.utf8Size ≤ n + 1 then charIndexFrom (count + 1) t (n + 1 - c.utf8Size) else none

/-- How many characters the first `n` bytes hold; `none` if they do not end after a character. -/
def charIndex? (t : Text) (n : Nat) : Option Nat := charIndexFrom 0 t n

def slice? (t : Text) (start stop : Nat) : Option Text :=
  if start ≤ stop then do
    let first ← t.charIndex? start
    let last ← t.charIndex? stop
    return (t.take last).drop first
  else none

def ofNat (n : Nat) : Text := Nat.toDigits 10 n

/-- The number that a run of decimal digits denotes. -/
def decimal (digits : Text) : Nat := Nat.ofDigitChars 10 digits 0

/-- Puts blanks in front until the text is `width` characters long. -/
def padLeft (width : Nat) (t : Text) : Text := t.leftpad width ' '

private theorem byteLength_foldl (t : Text) (n : Nat) :
    t.foldl (fun n c => n + c.utf8Size) n = n + byteLength t := by
  induction t generalizing n with
  | nil => rfl
  | cons c t ih =>
      simp only [byteLength, List.foldl_cons, Nat.zero_add]
      rw [ih, ih c.utf8Size, Nat.add_assoc]

@[simp] theorem byteLength_nil : byteLength [] = 0 := rfl

@[simp] theorem byteLength_cons (c : Char) (t : Text) :
    byteLength (c :: t) = c.utf8Size + byteLength t := by
  rw [byteLength, List.foldl_cons, byteLength_foldl, Nat.zero_add]

@[simp] theorem byteLength_append (s t : Text) :
    byteLength (s ++ t) = byteLength s + byteLength t := by
  rw [byteLength, List.foldl_append, byteLength_foldl]
  rfl

theorem byteLength_le_of_sublist {s t : Text} (h : s.Sublist t) : byteLength s ≤ byteLength t := by
  induction h with
  | slnil => exact Nat.le_refl 0
  | cons c _ ih =>
      rw [byteLength_cons]
      omega
  | cons_cons c _ ih =>
      rw [byteLength_cons, byteLength_cons]
      omega

/-- Reading back the digits of a number gives the number. -/
theorem decimal_ofNat (n : Nat) : decimal (ofNat n) = n :=
  Nat.ofDigitChars_toDigits (by decide) (by decide)

theorem ofNat_ne_nil (n : Nat) : ofNat n ≠ [] := Nat.toDigits_ne_nil

theorem isDigit_of_mem_ofNat {n : Nat} {c : Char} (h : c ∈ ofNat n) : c.isDigit = true :=
  Nat.isDigit_of_mem_toDigits (by decide) (by decide) h

end Text

end CoolLexer
