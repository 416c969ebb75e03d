import CoolLexer.Proofs.Text.Boundary
import CoolLexer.Proofs.Text.Utf8

/-!
# Decoding the rest of a text

The bytes of a text from an offset on are a text of their own where the offset falls between two
characters, and nowhere else: a byte shows whether a character begins with it. The bytes before an
offset are told by as many characters, since none of them takes less than a byte.
-/

namespace CoolLexer.Text

theorem utf8_append (s t : Text) : (s ++ t).utf8 = s.utf8 ++ t.utf8 := List.flatMap_append

theorem drop_utf8_append (before after : Text) :
    (before ++ after).utf8.drop before.byteLength = after.utf8 := by
  rw [utf8_append, ← length_utf8, List.drop_left]

theorem decode?_utf8 (t : Text) : decode? t.utf8.toByteArray = some t := by
  have hencode : t.encode = t.utf8.toByteArray := String.toByteArray_ofList
  rw [← hencode, decode?_encode]

/-- Bytes that are a text begin with the first byte of a character. -/
theorem decode?_eq_none {b : UInt8} {bytes : List UInt8} (h : ¬b.IsUTF8FirstByte) :
    decode? (b :: bytes).toByteArray = none := by
  have hinvalid : ¬(b :: bytes).toByteArray.IsValidUTF8 := by
    intro hvalid
    have hsize : 0 < (b :: bytes).toByteArray.size := by simp
    have hfirst := hvalid.isUTF8FirstByte_getElem_zero hsize
    rw [List.getElem_toByteArray] at hfirst
    exact h hfirst
  rw [decode?, String.fromUTF8?, dif_neg hinvalid, Option.map_none]

/-- What follows an offset inside a character begins with a byte that begins no character. -/
theorem SplitsChar.exists_drop_utf8 {t : Text} {n : Nat} (h : t.SplitsChar n) :
    ∃ b bytes, t.utf8.drop n = b :: bytes ∧ 128 ≤ b ∧ ¬b.IsUTF8FirstByte := by
  obtain ⟨before, c, after, rfl, hlow, hhigh⟩ := h
  have hlength := String.length_utf8EncodeChar c
  have hinside : n - before.byteLength < (String.utf8EncodeChar c).length := by omega
  have hfirst := List.drop_eq_getElem_cons hinside
  have hdrop : (before ++ c :: after).utf8.drop n =
      (String.utf8EncodeChar c).drop (n - before.byteLength) ++ after.utf8 := by
    rw [utf8_append, utf8_cons, List.drop_append, length_utf8,
      List.drop_eq_nil_of_le (by rw [length_utf8]; omega), List.nil_append,
      List.drop_append_of_le_length (Nat.le_of_lt hinside)]
  rw [hfirst, List.cons_append] at hdrop
  refine ⟨_, _, hdrop, ?_, ?_⟩
  · rcases utf8EncodeChar_cases c with ⟨-, hone⟩ | ⟨-, hmore⟩
    · rw [hone, List.length_singleton] at hinside
      omega
    · exact hmore _ (List.getElem_mem _)
  · rw [UInt8.isUTF8FirstByte_getElem_utf8EncodeChar]
    omega

theorem SplitsChar.slice?_eq_none {t : Text} {n : Nat} (h : t.SplitsChar n) (stop : Nat) :
    t.slice? n stop = none := by
  rw [Option.eq_none_iff_forall_ne_some]
  intro piece hpiece
  obtain ⟨before, after, rfl, rfl, -⟩ := slice?_eq_some_iff.mp hpiece
  exact not_splitsChar_append before _ h

/-- The first bytes of a text are bytes of as many of its first characters. -/
theorem take_utf8_take (t : Text) {m n : Nat} (h : m ≤ n) :
    (utf8 (t.take n)).take m = t.utf8.take m := by
  induction t generalizing m n with
  | nil => rw [List.take_nil]
  | cons c t ih =>
      cases n with
      | zero => rw [Nat.le_zero.mp h, List.take_zero, List.take_zero]
      | succ n =>
          have hsize := c.utf8Size_pos
          have hlength := String.length_utf8EncodeChar c
          rw [List.take_succ_cons, utf8_cons, utf8_cons, List.take_append, List.take_append,
            ih (by omega)]

/-- A byte is read as a character where it and all bytes before it are below 128. -/
theorem asciiAt?_eq_some_iff {t : Text} {n : Nat} {c : Char} :
    t.asciiAt? n = some c ↔ ∃ b, t.utf8[n]? = some b ∧
      (∀ a ∈ t.utf8.take (n + 1), a < 128) ∧ Char.ofNat b.toNat = c := by
  rw [asciiAt?, take_utf8_take t (Nat.le_refl _), List.getElem?_take_of_lt (Nat.lt_succ_self n)]
  cases hb : t.utf8[n]? with
  | none => simp
  | some b => simp [List.all_eq_true]

end CoolLexer.Text
