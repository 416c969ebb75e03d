import CoolLexer.Cursor
import CoolLexer.Proofs.Text.Decoding
import Mathlib.Algebra.Group.Nat.Defs

/-!
# Looking ahead in bytes

A cursor that looks ahead reads a byte where all bytes up to it are ASCII, and decodes what is left
of the source otherwise. Between two characters neither way can fail, however far ahead it looks, and
both find the character that stands there. Inside a character there is nothing to be found: the
byte at the offset is not ASCII, and what follows cannot be decoded.
-/

namespace CoolLexer

namespace Text

/-- The bytes up to index `n`. The range is refused where it goes beyond the bytes, and where its end
cannot be counted in 64 bits. -/
def upTo? (bytes : List UInt8) (n : Nat) : Option (List UInt8) :=
  if n + 1 < 2 ^ 64 ∧ n + 1 ≤ bytes.length then some (bytes.take (n + 1)) else none

/-- The character at index `n` of the text that the bytes encode; none at all if they encode none. -/
def decodedAt? (bytes : List UInt8) (n : Nat) : Option (Option Char) :=
  (decode? bytes.toByteArray).map fun t => t[n]?

/-- The character at index `n`, read as a byte where the bytes up to it are ASCII. The outer option is
for the range and the decoding, which can fail. -/
def charAt? (bytes : List UInt8) (n : Nat) : Option (Option Char) :=
  match bytes[n]? with
  | none => decodedAt? bytes n
  | some b => do
      let run ← upTo? bytes n
      if run.all (· < 128) then return some (Char.ofNat b.toNat) else decodedAt? bytes n

/-- The character `n` places ahead of byte `offset`, looked up in the bytes of a text alone. -/
def peekBytes? (bytes : List UInt8) (offset n : Nat) : Option (Option Char) :=
  if bytes.length < offset then some none else charAt? (bytes.drop offset) n

theorem upTo?_eq_some {bytes : List UInt8} {n : Nat} (hsize : bytes.length < 2 ^ 64)
    (h : n < bytes.length) : upTo? bytes n = some (bytes.take (n + 1)) :=
  if_pos ⟨by omega, h⟩

/-- On the bytes of a text that memory can hold no range is refused. -/
theorem charAt?_utf8 {t : Text} (hsize : t.byteLength < 2 ^ 64) (n : Nat) :
    charAt? t.utf8 n = some t[n]? := by
  have hdecoded : decodedAt? t.utf8 n = some t[n]? := by
    rw [decodedAt?, decode?_utf8, Option.map_some]
  rw [charAt?]
  cases hb : t.utf8[n]? with
  | none => exact hdecoded
  | some b =>
      have hlength : n < t.utf8.length := (List.getElem?_eq_some_iff.mp hb).1
      simp only [upTo?_eq_some (by rwa [length_utf8]) hlength, Option.bind_eq_bind, Option.bind_some]
      split
      · next hascii => rw [getElem?_of_utf8 hb hascii, Option.pure_def]
      · exact hdecoded

theorem charAt?_eq_none {b : UInt8} {bytes : List UInt8} (hhigh : 128 ≤ b)
    (hlater : ¬b.IsUTF8FirstByte) (n : Nat) : charAt? (b :: bytes) n = none := by
  have hdecoded : decodedAt? (b :: bytes) n = none := by
    rw [decodedAt?, decode?_eq_none hlater, Option.map_none]
  rw [charAt?]
  split
  · exact hdecoded
  · rw [Option.bind_eq_bind, Option.bind_eq_none_iff]
    intro run hrun
    rw [upTo?] at hrun
    split at hrun
    · -- The first byte of the run is not ASCII.
      have hbad : run.all (· < 128) = false := by
        rw [← Option.some.inj hrun, List.take_succ_cons, List.all_cons,
          decide_eq_false (UInt8.not_lt.mpr hhigh), Bool.false_and]
      rw [hbad]
      exact hdecoded
    · cases hrun

/-- The bytes of a text that memory can hold are looked up like its characters, at every offset: the
lookup fails where the text cannot be cut, and there only. -/
theorem peekBytes?_utf8 {t : Text} (hsize : t.byteLength < 2 ^ 64) {offset : Nat}
    (hoffset : offset ≤ t.byteLength) (n : Nat) :
    peekBytes? t.utf8 offset n = (t.slice? offset t.byteLength).map fun ahead => ahead[n]? := by
  rw [peekBytes?, length_utf8, if_neg (Nat.not_lt.mpr hoffset)]
  rcases exists_append_or_splitsChar hoffset with ⟨before, after, rfl, rfl⟩ | hinside
  · rw [byteLength_append] at hsize
    rw [drop_utf8_append, charAt?_utf8 (by omega), slice?_append_end, Option.map_some]
  · obtain ⟨b, bytes, hdrop, hhigh, hlater⟩ := hinside.exists_drop_utf8
    rw [hdrop, charAt?_eq_none hhigh hlater, hinside.slice?_eq_none, Option.map_none]

end Text

namespace Cursor

/-- What a cursor finds `n` characters ahead, in whichever way it looks. -/
structure FindsAhead (cursor : Cursor) (n : Nat) : Prop where
  remaining : cursor.source.slice? cursor.position.offset cursor.source.byteLength =
    some cursor.rest
  /-- A byte is taken for a character where all bytes from the cursor up to it are ASCII. -/
  ascii : ∀ c, cursor.rest.asciiAt? n = some c ↔ ∃ b, cursor.rest.utf8[n]? = some b ∧
    (∀ a ∈ cursor.rest.utf8.take (n + 1), a < 128) ∧ Char.ofNat b.toNat = c
  found : cursor.peek? n = cursor.rest[n]?
  /-- On the bytes of a source that memory can hold nothing fails. -/
  bytes : cursor.source.byteLength < 2 ^ 64 →
    Text.peekBytes? cursor.source.utf8 cursor.position.offset n = some (cursor.peek? n)

theorem peek?_eq_getElem? (cursor : Cursor) (n : Nat) : cursor.peek? n = cursor.rest[n]? := by
  rw [peek?]
  cases hbyte : cursor.rest.asciiAt? n with
  | none => rfl
  | some c => exact (Text.getElem?_of_asciiAt? hbyte).symm

/-- Wherever a cursor stands between two characters, and however far it looks, it finds the character
that stands there, and none behind the end. -/
theorem findsAhead {cursor : Cursor} {passed : Text} (hsource : cursor.source = passed ++ cursor.rest)
    (hoffset : cursor.position.offset = passed.byteLength) (n : Nat) : cursor.FindsAhead n := by
  have hremaining : cursor.source.slice? cursor.position.offset cursor.source.byteLength =
      some cursor.rest := by
    rw [hsource, hoffset, Text.slice?_append_end]
  have hfound := cursor.peek?_eq_getElem? n
  refine ⟨hremaining, fun c => Text.asciiAt?_eq_some_iff, hfound, ?_⟩
  intro hsize
  have hinside : cursor.position.offset ≤ cursor.source.byteLength := by
    rw [hoffset, hsource, Text.byteLength_append]
    omega
  rw [Text.peekBytes?_utf8 hsize hinside, hremaining, hfound, Option.map_some]

theorem findsAhead_of_multibyte :
    let cursor := (start "aé*)".toList).skip 1
    cursor.source = ['a'] ++ cursor.rest ∧ cursor.position.offset = Text.byteLength ['a'] ∧
      Text.peekBytes? cursor.source.utf8 1 1 = some (some '*') ∧
      cursor.FindsAhead 1 ∧ cursor.FindsAhead (2 ^ 64 - 1) := by
  intro cursor
  have hsource : cursor.source = ['a'] ++ cursor.rest := by decide
  have hoffset : cursor.position.offset = Text.byteLength ['a'] := by decide
  have hnext : cursor.FindsAhead 1 := findsAhead hsource hoffset 1
  have hstar : cursor.peek? 1 = some '*' := hnext.found
  have hbytes := hnext.bytes (by decide)
  rw [hstar] at hbytes
  exact ⟨hsource, hoffset, hbytes, hnext, findsAhead hsource hoffset _⟩

end Cursor

end CoolLexer
