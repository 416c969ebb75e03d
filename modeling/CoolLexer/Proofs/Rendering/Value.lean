import CoolLexer.Rendering.Reader
import Mathlib.Data.List.Basic

/-!
# Where a value ends

Values are written as they are, so the reader has to find their end. It takes the first closing
parenthesis that seems to end a token. A value is cut short exactly when it holds such a parenthesis
itself, whatever stands behind it.
-/

namespace CoolLexer

/-- What may be read as a separator. -/
def Separator.Allows (sep : Separator) (c : Char) : Prop := c = sep.char ∨ c = '\n'

instance (sep : Separator) (c : Char) : Decidable (sep.Allows c) :=
  inferInstanceAs (Decidable (_ ∨ _))

/-- The value has a closing parenthesis, a separator and the name of a kind in it, and goes on as a
token may go on. -/
def CutShort (sep : Separator) (value : Text) : Prop :=
  ∃ (before after : Text) (s c : Char) (kind : Kind),
    value = before ++ ')' :: s :: (kind.name ++ c :: after) ∧ sep.Allows s ∧
      (c = '(' ∨ sep.Allows c)

namespace Rendering

/-- A text may follow the name of a kind. -/
def FollowsName (sep : Separator) (t : Text) : Prop :=
  ∀ c, t.head? = some c → c = '(' ∨ sep.Allows c

theorem accepts_iff {sep : Separator} {c : Char} : sep.accepts c = true ↔ sep.Allows c := by
  simp [Separator.accepts, Separator.Allows]

theorem ofName?_eq_some_iff {name : Text} {kind : Kind} :
    Kind.ofName? name = some kind ↔ name = kind.name := by
  constructor
  · intro h
    have := List.find?_some h
    exact (eq_of_beq this).symm
  · rintro rfl
    exact Kind.ofName?_name kind

private theorem isNameChar_of_mem_name {kind : Kind} {c : Char} (h : c ∈ kind.name) :
    isNameChar c = true := by
  have hall : ∀ k ∈ Kind.all, k.name.all isNameChar = true := by decide
  exact List.all_eq_true.mp (hall kind (Kind.mem_all kind)) c h

theorem name_ne_nil (kind : Kind) : kind.name ≠ [] := by
  have hall : ∀ k ∈ Kind.all, k.name ≠ [] := by decide
  exact hall kind (Kind.mem_all kind)

private theorem not_isNameChar {sep : Separator} {c : Char} (h : c = '(' ∨ sep.Allows c) :
    isNameChar c = false := by
  rcases h with rfl | rfl | rfl
  · decide
  · cases sep <;> decide
  · decide

private theorem not_allows_close (sep : Separator) : ¬sep.Allows ')' := by
  cases sep <;> decide

/-- A name is the whole run of name characters when a text follows that may follow it. -/
theorem name_append {sep : Separator} (kind : Kind) {rest : Text} (h : FollowsName sep rest) :
    (kind.name ++ rest).takeWhile isNameChar = kind.name ∧
      (kind.name ++ rest).dropWhile isNameChar = rest := by
  have hname : ∀ c ∈ kind.name, isNameChar c = true := fun c hc => isNameChar_of_mem_name hc
  rw [List.takeWhile_append_of_pos hname, List.dropWhile_append_of_pos hname]
  cases rest with
  | nil => simp
  | cons c rest => simp [not_isNameChar (h c rfl)]

theorem startsWithToken_iff {sep : Separator} {t : Text} :
    startsWithToken sep t = true ↔
      ∃ (kind : Kind) (rest : Text), t = kind.name ++ rest ∧ FollowsName sep rest := by
  unfold startsWithToken
  constructor
  · intro h
    obtain ⟨hname, hrest⟩ := Bool.and_eq_true_iff.mp h
    obtain ⟨kind, hkind⟩ := Option.isSome_iff_exists.mp hname
    refine ⟨kind, t.dropWhile isNameChar, ?_, ?_⟩
    · rw [← ofName?_eq_some_iff.mp hkind, List.takeWhile_append_dropWhile]
    · intro c hc
      rw [hc] at hrest
      simpa [accepts_iff] using hrest
  · intro h
    obtain ⟨kind, rest, rfl, hrest⟩ := h
    obtain ⟨htake, hdrop⟩ := name_append kind hrest
    rw [htake, hdrop, Kind.ofName?_name]
    cases hc : rest.head? with
    | none => rfl
    | some c => simpa [accepts_iff] using hrest c hc

/-- Inside a value, an ending is seen where the value itself has the start of a token. -/
private theorem endsValue_append_iff {sep : Separator} {b rest : Text} :
    endsValue sep (b ++ ')' :: rest) = true ↔
      ∃ (after : Text) (s c : Char) (kind : Kind), b = s :: (kind.name ++ c :: after) ∧
        sep.Allows s ∧ (c = '(' ∨ sep.Allows c) := by
  cases b with
  | nil =>
      have : sep.accepts ')' = false := by cases sep <;> decide
      simp [endsValue, this]
  | cons s b =>
      have hnonempty : (b ++ ')' :: rest).isEmpty = false := by simp
      rw [List.cons_append, endsValue, hnonempty, Bool.false_or, Bool.and_eq_true_iff, accepts_iff,
        startsWithToken_iff]
      constructor
      · intro h
        obtain ⟨hs, kind, tail, hsplit, hfollows⟩ := h
        have hstop : ¬FollowsName sep (')' :: rest) := by
          intro h
          have := not_allows_close sep
          simp_all [FollowsName]
        rcases List.append_eq_append_iff.mp hsplit with ⟨x, hname, htail⟩ | ⟨x, hb, htail⟩
        · cases x with
          | nil => exact absurd (htail ▸ hfollows) hstop
          | cons d x =>
              obtain rfl : ')' = d := (List.cons.inj htail).1
              have hclose : ')' ∈ kind.name := by simp [hname]
              cases isNameChar_of_mem_name hclose
        · cases x with
          | nil =>
              rw [htail] at hfollows
              exact absurd hfollows hstop
          | cons c x => exact ⟨x, s, c, kind, by rw [hb], hs, hfollows c (by simp [htail])⟩
      · intro h
        obtain ⟨after, s', c, kind, hb, hs, hc⟩ := h
        obtain ⟨rfl, rfl⟩ := List.cons.inj hb
        refine ⟨hs, kind, c :: (after ++ ')' :: rest), by simp, ?_⟩
        intro d hd
        obtain rfl : c = d := by simpa using hd
        exact hc

private theorem closeValue?_eq_some_iff {sep : Separator} {read t value rest : Text} :
    closeValue? sep read t = some (value, rest) ↔
      ∃ s, value = read.reverse ++ s ∧ t = s ++ ')' :: rest ∧ endsValue sep rest = true ∧
        ∀ a b, s = a ++ ')' :: b → endsValue sep (b ++ ')' :: rest) = false := by
  induction t generalizing read with
  | nil => simp [closeValue?]
  | cons c t ih =>
      rw [closeValue?]
      by_cases hclose : (c = ')' && endsValue sep t) = true
      · rw [if_pos hclose]
        obtain ⟨hc, hends⟩ := Bool.and_eq_true_iff.mp hclose
        obtain rfl := of_decide_eq_true hc
        constructor
        · intro h
          obtain ⟨rfl, rfl⟩ := h
          exact ⟨[], by simp, rfl, hends, by simp⟩
        · intro h
          obtain ⟨s, rfl, hsplit, -, hfirst⟩ := h
          cases s with
          | nil =>
              obtain rfl := (List.cons.inj hsplit).2
              rw [List.append_nil]
          | cons d s =>
              obtain ⟨rfl, rfl⟩ := List.cons.inj hsplit
              cases hends.symm.trans (hfirst [] s rfl)
      · rw [if_neg hclose, ih]
        constructor
        · intro h
          obtain ⟨s, rfl, rfl, hends, hfirst⟩ := h
          refine ⟨c :: s, by simp, rfl, hends, ?_⟩
          intro a b hab
          cases a with
          | nil =>
              obtain ⟨rfl, rfl⟩ := List.cons.inj hab
              simpa using hclose
          | cons d a => exact hfirst a b (List.cons.inj hab).2
        · intro h
          obtain ⟨s, rfl, hsplit, hends, hfirst⟩ := h
          cases s with
          | nil =>
              obtain ⟨rfl, rfl⟩ := List.cons.inj hsplit
              simp [hends] at hclose
          | cons d s =>
              obtain ⟨rfl, rfl⟩ := List.cons.inj hsplit
              refine ⟨s, by simp, rfl, hends, ?_⟩
              intro a b hab
              exact hfirst (c :: a) b (by rw [hab, List.cons_append])

/-- A value is read whole exactly when it is not cut short and a token ends after it. -/
theorem closeValue?_iff {sep : Separator} {t value rest : Text} :
    closeValue? sep [] t = some (value, rest) ↔
      t = value ++ ')' :: rest ∧ endsValue sep rest = true ∧ ¬CutShort sep value := by
  rw [closeValue?_eq_some_iff]
  have hcut : (∀ a b, value = a ++ ')' :: b → endsValue sep (b ++ ')' :: rest) = false) ↔
      ¬CutShort sep value := by
    constructor
    · rintro h ⟨before, after, s, c, kind, hvalue, hs, hc⟩
      have := h before _ hvalue
      rw [endsValue_append_iff.mpr ⟨after, s, c, kind, rfl, hs, hc⟩] at this
      cases this
    · intro h a b hvalue
      rw [Bool.eq_false_iff]
      intro hends
      obtain ⟨after, s, c, kind, rfl, hs, hc⟩ := endsValue_append_iff.mp hends
      exact h ⟨a, after, s, c, kind, hvalue, hs, hc⟩
  constructor
  · intro h
    obtain ⟨s, hvalue, ht, hends, hfirst⟩ := h
    obtain rfl : value = s := hvalue
    exact ⟨ht, hends, hcut.mp hfirst⟩
  · intro h
    obtain ⟨ht, hends, hwhole⟩ := h
    exact ⟨value, rfl, ht, hends, hcut.mpr hwhole⟩

end Rendering

instance (sep : Separator) (value : Text) : Decidable (CutShort sep value) :=
  decidable_of_iff (¬Rendering.closeValue? sep [] (value ++ [')']) = some (value, []))
    (by simp [Rendering.closeValue?_iff, Rendering.endsValue])

end CoolLexer
