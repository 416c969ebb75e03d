import CoolLexer.Lexer.Comment

/-!
# Block comments as a grammar

The scan of a block comment counts the comments that are open. The grammar below has no count: a
comment goes on with single characters and whole comments up to its own `*)`. The two agree on every
text.
-/

namespace CoolLexer.Comment

/-- What follows the `(*` of a block comment, up to and including the `*)` that closes it. -/
inductive Tail : Text → Prop
  | close : Tail ['*', ')']
  | nested {inner rest : Text} : Tail inner → Tail rest → Tail ('(' :: '*' :: (inner ++ rest))
  /-- A character that starts neither `(*` nor `*)`. -/
  | char {c : Char} {rest : Text} :
      (c = '(' → rest.head? ≠ some '*') → (c = '*' → rest.head? ≠ some ')') →
      Tail rest → Tail (c :: rest)

private theorem Tail.head?_append {t : Text} (h : Tail t) (after : Text) :
    (t ++ after).head? = t.head? := by
  cases h <;> rfl

theorem closeAfter?_char (depth used : Nat) {c : Char} {rest : Text}
    (hopen : c = '(' → rest.head? ≠ some '*') (hclose : c = '*' → rest.head? ≠ some ')') :
    closeAfter? depth used (c :: rest) = closeAfter? depth (used + 1) rest := by
  rw [closeAfter?]
  · rintro rest' rfl rfl
    exact hopen rfl rfl
  · rintro rest' rfl rfl
    exact hclose rfl rfl

/-- Counting passes over a whole comment as over nothing, except that one comment fewer is open. -/
private theorem closeAfter?_tail {s : Text} (h : Tail s) (depth used : Nat) (after : Text) :
    closeAfter? depth used (s ++ after) =
      match depth with
      | 0 => some (used + s.length)
      | depth + 1 => closeAfter? depth (used + s.length) after := by
  induction h generalizing depth used after with
  | close => cases depth <;> rfl
  | @nested inner rest _ _ ihi ihr =>
      have hinner := ihi (depth + 1) (used + 2) (rest ++ after)
      have hsize : used + ('(' :: '*' :: (inner ++ rest)).length =
          used + 2 + inner.length + rest.length := by
        simp only [List.length_cons, List.length_append]
        omega
      rw [List.cons_append, List.cons_append, List.append_assoc, closeAfter?, hinner, hsize]
      exact ihr depth (used + 2 + inner.length) after
  | @char c rest hopen hclose hrest ih =>
      have hhead := hrest.head?_append after
      have hsize : used + (c :: rest).length = used + 1 + rest.length := by
        simp only [List.length_cons]
        omega
      rw [List.cons_append, closeAfter?_char depth used (hhead ▸ hopen) (hhead ▸ hclose), hsize]
      exact ih depth (used + 1) after

/-- With `depth` comments open inside the outermost one, what is counted closes them all. -/
private theorem tails_of_closeAfter? (depth used : Nat) (t : Text) {n : Nat}
    (h : closeAfter? depth used t = some n) :
    ∃ (tails : List Text) (after : Text), tails.length = depth + 1 ∧ (∀ s ∈ tails, Tail s) ∧
      t = tails.flatten ++ after ∧ n = used + tails.flatten.length := by
  induction depth, used, t using closeAfter?.induct with
  | case1 depth used rest ih =>
      rw [closeAfter?] at h
      obtain ⟨tails, after, hlen, htails, rfl, rfl⟩ := ih h
      obtain ⟨inner, tails, rfl⟩ := List.exists_cons_of_length_eq_add_one hlen
      obtain ⟨outer, tails, rfl⟩ := List.exists_cons_of_length_eq_add_one (Nat.succ.inj hlen)
      refine ⟨('(' :: '*' :: (inner ++ outer)) :: tails, after, by simpa using hlen, ?_, ?_, ?_⟩
      · intro s hs
        rcases List.mem_cons.mp hs with rfl | hs
        · exact .nested (htails inner (by simp)) (htails outer (by simp))
        · exact htails s (by simp [hs])
      · simp
      · simp only [List.flatten_cons, List.length_append, List.length_cons]
        omega
  | case2 used rest =>
      rw [closeAfter?] at h
      obtain rfl := Option.some.inj h
      exact ⟨[['*', ')']], rest, rfl, by simpa using Tail.close, rfl, rfl⟩
  | case3 used rest depth ih =>
      rw [closeAfter?] at h
      obtain ⟨tails, after, hlen, htails, rfl, rfl⟩ := ih h
      refine ⟨['*', ')'] :: tails, after, by simp [hlen], ?_, rfl, ?_⟩
      · intro s hs
        rcases List.mem_cons.mp hs with rfl | hs
        · exact .close
        · exact htails s hs
      · simp only [List.flatten_cons, List.length_append, List.length_cons, List.length_nil]
        omega
  | case4 depth used c rest hopen hclose ih =>
      have hopen' : c = '(' → rest.head? ≠ some '*' := by
        intro hc hhead
        obtain ⟨rest, rfl⟩ := List.head?_eq_some_iff.mp hhead
        exact hopen rest hc rfl
      have hclose' : c = '*' → rest.head? ≠ some ')' := by
        intro hc hhead
        obtain ⟨rest, rfl⟩ := List.head?_eq_some_iff.mp hhead
        exact hclose rest hc rfl
      rw [closeAfter?_char depth used hopen' hclose'] at h
      obtain ⟨tails, after, hlen, htails, rfl, rfl⟩ := ih h
      obtain ⟨first, tails, rfl⟩ := List.exists_cons_of_length_eq_add_one hlen
      have hTail := htails first (by simp)
      have hhead : ((first :: tails).flatten ++ after).head? = first.head? := by
        rw [List.flatten_cons, List.append_assoc, hTail.head?_append]
      have hfirst : Tail (c :: first) := .char (hhead ▸ hopen') (hhead ▸ hclose') hTail
      refine ⟨(c :: first) :: tails, after, hlen, ?_, rfl, ?_⟩
      · intro s hs
        rcases List.mem_cons.mp hs with rfl | hs
        · exact hfirst
        · exact htails s (by simp [hs])
      · simp only [List.flatten_cons, List.length_append, List.length_cons]
        omega
  | case5 depth used => simp [closeAfter?] at h

/-- The length of a block comment is that of the comment it starts with in the grammar. -/
theorem blockLength?_eq_some_iff {body : Text} {n : Nat} :
    blockLength? body = some n ↔ ∃ s after, Tail s ∧ body = s ++ after ∧ n = s.length := by
  constructor
  · intro h
    obtain ⟨tails, after, hlen, htails, rfl, rfl⟩ := tails_of_closeAfter? 0 0 body h
    obtain ⟨s, rfl⟩ := List.length_eq_one_iff.mp hlen
    exact ⟨s, after, htails s (by simp), by simp, by simp⟩
  · intro h
    obtain ⟨s, after, hs, rfl, rfl⟩ := h
    rw [blockLength?, closeAfter?_tail hs 0 0 after, Nat.zero_add]

/-- A block comment is not closed exactly when its text has no comment of the grammar in front. -/
theorem blockLength?_eq_none_iff {body : Text} :
    blockLength? body = none ↔ ∀ s after, Tail s → body ≠ s ++ after := by
  constructor
  · intro h s after hs hbody
    have := blockLength?_eq_some_iff.mpr ⟨s, after, hs, hbody, rfl⟩
    simp [h] at this
  · intro h
    cases hn : blockLength? body with
    | none => rfl
    | some n =>
        obtain ⟨s, after, hs, hbody, -⟩ := blockLength?_eq_some_iff.mp hn
        exact absurd hbody (h s after hs)

end CoolLexer.Comment
