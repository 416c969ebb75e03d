import CoolLexer.Proofs.Text.Slice
import Mathlib.Data.List.Basic

/-!
# Offsets between characters

An offset in bytes falls between two characters of a text or into one of them. A cut succeeds where
both of its ends fall between characters, and it gives the text between them.
-/

namespace CoolLexer.Text

private theorem exists_of_charIndexFrom {count n i : Nat} {t : Text}
    (h : charIndexFrom count t n = some i) :
    ∃ before after, t = before ++ after ∧ before.byteLength = n ∧ count + before.length = i := by
  induction t generalizing count n with
  | nil =>
      cases n with
      | zero => exact ⟨[], [], rfl, rfl, Option.some.inj h⟩
      | succ n => cases h
  | cons c t ih =>
      cases n with
      | zero => exact ⟨[], c :: t, rfl, rfl, Option.some.inj h⟩
      | succ n =>
          rw [charIndexFrom] at h
          split at h
          · next hsize =>
              obtain ⟨before, after, rfl, hlength, hcount⟩ := ih h
              refine ⟨c :: before, after, rfl, ?_, ?_⟩
              · rw [byteLength_cons]
                omega
              · rw [List.length_cons]
                omega
          · cases h

theorem eq_nil_of_byteLength_le_zero {t : Text} (h : t.byteLength ≤ 0) : t = [] := by
  by_contra hne
  exact absurd (byteLength_pos hne) (Nat.not_lt.mpr h)

/-- Of two parts that a text starts with, the one with fewer bytes comes first. -/
theorem exists_eq_append_of_byteLength_le {s t u v : Text} (h : s ++ u = t ++ v)
    (hle : s.byteLength ≤ t.byteLength) : ∃ piece, t = s ++ piece := by
  rcases List.append_eq_append_iff.mp h with ⟨piece, ht, -⟩ | ⟨piece, hs, -⟩
  · exact ⟨piece, ht⟩
  · have hempty : piece = [] := by
      rw [hs, byteLength_append] at hle
      exact eq_nil_of_byteLength_le_zero (by omega)
    exact ⟨[], by rw [hs, hempty, List.append_nil, List.append_nil]⟩

theorem eq_of_byteLength_eq {s t u v : Text} (h : s ++ u = t ++ v)
    (hlength : s.byteLength = t.byteLength) : s = t := by
  obtain ⟨piece, rfl⟩ := exists_eq_append_of_byteLength_le h (Nat.le_of_eq hlength)
  rw [byteLength_append] at hlength
  rw [eq_nil_of_byteLength_le_zero (t := piece) (by omega), List.append_nil]

theorem slice?_eq_some_iff {t piece : Text} {start stop : Nat} :
    t.slice? start stop = some piece ↔ ∃ before after, t = before ++ (piece ++ after) ∧
      before.byteLength = start ∧ before.byteLength + piece.byteLength = stop := by
  constructor
  · intro h
    rw [slice?] at h
    split at h
    · next hle =>
        obtain ⟨first, hfirst, hlater⟩ := Option.bind_eq_some_iff.mp h
        obtain ⟨last, hlast, hcut⟩ := Option.bind_eq_some_iff.mp hlater
        obtain ⟨before, rest, rfl, rfl, hbefore⟩ := exists_of_charIndexFrom hfirst
        obtain ⟨upTo, after, hsplit, rfl, hupTo⟩ := exists_of_charIndexFrom hlast
        obtain ⟨found, rfl⟩ := exists_eq_append_of_byteLength_le hsplit hle
        rw [Nat.zero_add] at hbefore hupTo
        have hpiece : found = piece := by
          rw [← hbefore, ← hupTo, hsplit, List.take_left, List.drop_left] at hcut
          exact Option.some.inj hcut
        subst hpiece
        exact ⟨before, after, by rw [hsplit, List.append_assoc], rfl, (byteLength_append _ _).symm⟩
    · cases h
  · rintro ⟨before, after, rfl, rfl, rfl⟩
    exact slice?_append before piece after

/-- A byte offset falls between two bytes of one character. -/
def SplitsChar (t : Text) (n : Nat) : Prop :=
  ∃ (before : Text) (c : Char) (after : Text), t = before ++ c :: after ∧
    before.byteLength < n ∧ n < before.byteLength + c.utf8Size

theorem not_splitsChar_append (before after : Text) :
    ¬SplitsChar (before ++ after) before.byteLength := by
  rintro ⟨front, c, back, hsplit, hlow, hhigh⟩
  obtain ⟨piece, rfl⟩ := exists_eq_append_of_byteLength_le hsplit.symm (Nat.le_of_lt hlow)
  cases piece with
  | nil => simp at hlow
  | cons d piece =>
      rw [List.append_assoc, List.append_cancel_left_eq, List.cons_append,
        List.cons.injEq] at hsplit
      rw [byteLength_append, byteLength_cons, hsplit.1] at hhigh
      omega

/-- An offset in a text falls between two characters or into one. -/
theorem exists_append_or_splitsChar {t : Text} {n : Nat} (h : n ≤ t.byteLength) :
    (∃ before after, t = before ++ after ∧ before.byteLength = n) ∨ t.SplitsChar n := by
  induction t generalizing n with
  | nil => exact .inl ⟨[], [], rfl, (Nat.le_zero.mp h).symm⟩
  | cons c t ih =>
      by_cases hzero : n = 0
      · exact .inl ⟨[], c :: t, rfl, hzero.symm⟩
      by_cases hsize : n < c.utf8Size
      · exact .inr ⟨[], c, t, rfl, Nat.pos_of_ne_zero hzero, by simpa using hsize⟩
      rw [byteLength_cons] at h
      rcases @ih (n - c.utf8Size) (by omega) with
        ⟨before, after, rfl, hbefore⟩ | ⟨before, d, after, rfl, hlow, hhigh⟩
      · refine .inl ⟨c :: before, after, rfl, ?_⟩
        rw [byteLength_cons]
        omega
      · refine .inr ⟨c :: before, d, after, rfl, ?_⟩
        rw [byteLength_cons]
        omega

end CoolLexer.Text
