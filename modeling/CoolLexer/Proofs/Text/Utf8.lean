import CoolLexer.Text.Utf8
import Mathlib.Data.List.Basic

/-!
# Bytes and characters

A byte below 128 is a character of its own, and the bytes of every other character are all above
that. So a run of such bytes can be read one by one, and a newline is found where its byte is. What
is written to a file as a text is read back from it.
-/

namespace CoolLexer.Text

theorem utf8EncodeChar_cases (c : Char) :
    c.toNat < 128 ∧ String.utf8EncodeChar c = [UInt8.ofNat c.toNat] ∨
      128 ≤ c.toNat ∧ ∀ b ∈ String.utf8EncodeChar c, 128 ≤ b := by
  by_cases hc : c.val.toNat ≤ 127
  · left
    exact ⟨Nat.lt_succ_of_le hc, by rw [String.utf8EncodeChar, if_pos hc]; rfl⟩
  · right
    refine ⟨Nat.lt_of_not_le hc, ?_⟩
    have hhigh (n : Nat) (hn : 128 ≤ n % 256) : 128 ≤ UInt8.ofNat n := by
      rw [UInt8.le_iff_toNat_le, UInt8.toNat_ofNat']
      exact hn
    have htail (n : Nat) : 128 ≤ UInt8.ofNat (n % 64 + 128) := hhigh _ (by omega)
    intro b hb
    rw [String.utf8EncodeChar, if_neg hc] at hb
    split at hb
    · simp only [List.mem_cons, List.not_mem_nil, or_false] at hb
      rcases hb with rfl | rfl
      · exact hhigh _ (by omega)
      · exact htail _
    split at hb
    · simp only [List.mem_cons, List.not_mem_nil, or_false] at hb
      rcases hb with rfl | rfl | rfl
      · exact hhigh _ (by omega)
      · exact htail _
      · exact htail _
    · simp only [List.mem_cons, List.not_mem_nil, or_false] at hb
      rcases hb with rfl | rfl | rfl | rfl
      · exact hhigh _ (by omega)
      · exact htail _
      · exact htail _
      · exact htail _

theorem utf8_cons (c : Char) (t : Text) : utf8 (c :: t) = String.utf8EncodeChar c ++ utf8 t := rfl

theorem length_utf8 (t : Text) : t.utf8.length = t.byteLength := by
  induction t with
  | nil => rfl
  | cons c t ih =>
      rw [utf8_cons, List.length_append, String.length_utf8EncodeChar, byteLength_cons, ih]

/-- In a run of bytes below 128 the byte and the character at an index are the same. -/
theorem getElem?_of_utf8 {t : Text} {n : Nat} {b : UInt8} (hb : t.utf8[n]? = some b)
    (hrun : (t.utf8.take (n + 1)).all (· < 128) = true) : t[n]? = some (Char.ofNat b.toNat) := by
  induction t generalizing n with
  | nil => cases hb
  | cons c t ih =>
      rw [utf8_cons] at hb hrun
      rcases utf8EncodeChar_cases c with ⟨hc, hone⟩ | ⟨-, hmore⟩
      · rw [hone] at hb hrun
        cases n with
        | zero =>
            have hbyte : UInt8.ofNat c.toNat = b := Option.some.inj hb
            have hsmall : c.toNat % 256 = c.toNat := Nat.mod_eq_of_lt (by omega)
            rw [← hbyte, UInt8.toNat_ofNat', hsmall, Char.ofNat_toNat]
            rfl
        | succ n =>
            rw [List.singleton_append, List.take_succ_cons, List.all_cons, Bool.and_eq_true] at hrun
            exact ih hb hrun.2
      · -- The first byte of the character is in the run.
        obtain ⟨first, rest, hbytes⟩ : ∃ first rest, String.utf8EncodeChar c = first :: rest := by
          apply List.exists_cons_of_length_pos
          rw [String.length_utf8EncodeChar]
          exact c.utf8Size_pos
        have hfirst : 128 ≤ first := hmore first (by simp [hbytes])
        rw [hbytes, List.cons_append, List.take_succ_cons, List.all_cons, Bool.and_eq_true,
          decide_eq_true_eq] at hrun
        exact absurd hrun.1 (UInt8.not_lt.mpr hfirst)

/-- A character read as a byte is the character at the index. -/
theorem getElem?_of_asciiAt? {t : Text} {n : Nat} {c : Char} (h : t.asciiAt? n = some c) :
    t[n]? = some c := by
  rw [asciiAt?] at h
  split at h
  · next b hb =>
      split at h
      · next hrun =>
          rw [List.getElem?_take_of_lt (Nat.lt_succ_self n)] at hb
          have hfound := getElem?_of_utf8 hb hrun
          rw [List.getElem?_take_of_lt (Nat.lt_succ_self n)] at hfound
          exact hfound.trans h
      · cases h
  · cases h

theorem decode?_encode (t : Text) : decode? t.encode = some t := by
  have hvalid : (String.ofList t).toUTF8.IsValidUTF8 := (String.ofList t).isValidUTF8
  rw [decode?, encode, String.fromUTF8?, dif_pos hvalid]
  exact congrArg some String.toList_ofList

end CoolLexer.Text
