import CoolLexer.Proofs.Toml.Value

/-!
# Documents written line by line

A document may be written with headers and settings on lines of their own, and empty lines between
them. It is read as the statements of its lines.
-/

namespace CoolLexer.Toml

namespace Statement

/-- A key that needs no quotes. -/
structure IsBareKey (key : Text) : Prop where
  nonempty : key ≠ []
  bare : key.all isKeyChar = true

theorem IsBareKey.isKeyChar_of_mem {key : Text} (h : IsBareKey key) :
    ∀ c ∈ key, isKeyChar c = true :=
  List.all_eq_true.mp h.bare

/-- A text that consists of lines, and the statements on them. -/
inductive Lines : Text → List Statement → Prop
  | done : Lines [] []
  | empty {t : Text} {statements : List Statement} : Lines t statements →
      Lines ('\n' :: t) statements
  | header {key t : Text} {statements : List Statement} : IsBareKey key → Lines t statements →
      Lines ('[' :: (key ++ ']' :: '\n' :: t)) (.header [key] :: statements)
  | setting {key text t : Text} {value : Value} {statements : List Statement} :
      IsBareKey key → EndsLine text value → Lines t statements →
      Lines (key ++ ' ' :: '=' :: ' ' :: (text ++ '\n' :: t)) (.setting [] key value :: statements)

theorem skipBlanks_cons {c : Char} (h : Quoted.isBlank c = false) (t : Text) :
    skipBlanks (c :: t) = c :: t :=
  List.dropWhile_cons_of_neg (by simp [h])

theorem afterLine?_newline (t : Text) : afterLine? ('\n' :: t) = some t := rfl

section
variable {key : Text} (h : IsBareKey key)
include h

theorem IsBareKey.exists_cons : ∃ c tail, key = c :: tail ∧ isKeyChar c = true := by
  obtain ⟨c, tail, rfl⟩ := List.exists_cons_of_ne_nil h.nonempty
  exact ⟨c, tail, rfl, h.isKeyChar_of_mem c List.mem_cons_self⟩

theorem IsBareKey.append_ne_cons {d : Char} (hd : isKeyChar d = false) (rest more : Text) :
    key ++ rest ≠ d :: more := by
  obtain ⟨c, tail, rfl, hc⟩ := h.exists_cons
  intro hsame
  rw [(List.cons.inj hsame).1, hd] at hc
  cases hc

theorem keyPath?_append {c : Char} (hc : isKeyChar c = false) {rest : Text}
    (hdot : (skipBlanks (c :: rest)).head? ≠ some '.') (size : Nat) :
    keyPath? (size + 1) (key ++ c :: rest) = some ([], key, skipBlanks (c :: rest)) := by
  have hstart : skipBlanks (key ++ c :: rest) = key ++ c :: rest := by
    obtain ⟨d, tail, rfl, hd⟩ := h.exists_cons
    exact skipBlanks_cons (isBlank_of_isKeyChar hd) _
  have hsimple : simpleKey? (key ++ c :: rest) = some (key, c :: rest) := by
    have htake : (key ++ c :: rest).takeWhile isKeyChar = key := by
      rw [List.takeWhile_append_of_pos h.isKeyChar_of_mem, List.takeWhile_cons_of_neg (by simp [hc]),
        List.append_nil]
    have hdrop : (key ++ c :: rest).dropWhile isKeyChar = c :: rest := by
      rw [List.dropWhile_append_of_pos h.isKeyChar_of_mem, List.dropWhile_cons_of_neg (by simp [hc])]
    rw [simpleKey?, htake, hdrop]
    split
    · exact absurd rfl h.nonempty
    · rfl
  rw [keyPath?, hstart, hsimple]
  simp only [Option.bind_eq_bind, Option.bind_some]
  split
  · next hrest => simp [hrest] at hdot
  · rfl

theorem first?_header (t : Text) :
    first? ('[' :: (key ++ ']' :: '\n' :: t)) = some (.header [key], t) := by
  have hpath : keyPath? maxDepth (key ++ ']' :: '\n' :: t) = some ([], key, ']' :: '\n' :: t) :=
    keyPath?_append h rfl (by simp [skipBlanks, Quoted.isBlank]) 78
  rw [first?]
  · simp [hpath, afterLine?_newline]
  · intro rest hbracket
    exact h.append_ne_cons rfl _ _ hbracket

theorem first?_setting {text : Text} {value : Value} (hvalue : EndsLine text value) (t : Text) :
    first? (key ++ ' ' :: '=' :: ' ' :: (text ++ '\n' :: t)) = some (.setting [] key value, t) := by
  have hpath : keyPath? maxDepth (key ++ ' ' :: '=' :: ' ' :: (text ++ '\n' :: t)) =
      some ([], key, '=' :: ' ' :: (text ++ '\n' :: t)) :=
    keyPath?_append h rfl (by simp [skipBlanks, Quoted.isBlank]) 78
  have hblanks : skipBlanks (' ' :: (text ++ '\n' :: t)) = text ++ '\n' :: t := by
    have hstarts := hvalue.starts
    cases text with
    | nil => cases hstarts
    | cons c text =>
        have hc : Quoted.isBlank c = false := by simpa using hstarts
        exact skipBlanks_cons hc _
  have hpair : pair? (value? maxDepth) (key ++ ' ' :: '=' :: ' ' :: (text ++ '\n' :: t)) =
      some (([], key, value), '\n' :: t) := by
    rw [pair?, hpath]
    simp only [Option.bind_eq_bind, Option.bind_some, skipBlanks_cons (c := '=') rfl, hblanks,
      hvalue.reads]
    rfl
  rw [first?]
  · simp [hpair, afterLine?_newline]
  · intro rest hbrackets
    exact h.append_ne_cons rfl _ _ hbrackets
  · intro rest hbracket
    exact h.append_ne_cons rfl _ _ hbracket

end

theorem all?_empty (read : List Statement) (fuel : Nat) (t : Text) :
    all? read (fuel + 1) ('\n' :: t) = all? read fuel t := by
  rw [all?, skipBlanks_cons rfl]
  simp [afterLine?_newline]

/-- A statement is read if it does not begin like an empty line. -/
theorem all?_statement {t rest : Text} {statement : Statement}
    (hfirst : first? t = some (statement, rest))
    (hstart : ∃ c tail, t = c :: tail ∧ Quoted.isBlank c = false ∧ c ≠ '#' ∧ c ≠ '\n' ∧ c ≠ '\r')
    (read : List Statement) (fuel : Nat) :
    all? read (fuel + 1) t = all? (statement :: read) fuel rest := by
  obtain ⟨c, tail, rfl, hblank, hcomment, hnewline, hreturn⟩ := hstart
  rw [all?, skipBlanks_cons hblank]
  simp [hfirst, hcomment, hnewline, hreturn]

/-- The fuel lasts, since no line is without a character. -/
theorem Lines.all?_eq {t : Text} {statements : List Statement} (h : Lines t statements)
    (read : List Statement) {fuel : Nat} (hfuel : t.length < fuel) :
    all? read fuel t = some (read.reverse ++ statements) := by
  induction h generalizing read fuel with
  | done =>
      obtain ⟨fuel, rfl⟩ : ∃ n, fuel = n + 1 := ⟨fuel - 1, by omega⟩
      simp [all?, skipBlanks]
  | empty _ ih =>
      obtain ⟨fuel, rfl⟩ : ∃ n, fuel = n + 1 := ⟨fuel - 1, by omega⟩
      rw [all?_empty]
      exact ih read (by simpa using hfuel)
  | @header key t statements hkey _ ih =>
      obtain ⟨fuel, rfl⟩ : ∃ n, fuel = n + 1 := ⟨fuel - 1, by omega⟩
      have hlength : t.length < fuel := by
        simp only [List.length_cons, List.length_append] at hfuel
        omega
      rw [all?_statement (first?_header hkey t) ⟨_, _, rfl, by decide⟩, ih _ hlength]
      simp
  | @setting key text t value statements hkey hvalue _ ih =>
      obtain ⟨fuel, rfl⟩ : ∃ n, fuel = n + 1 := ⟨fuel - 1, by omega⟩
      have hlength : t.length < fuel := by
        simp only [List.length_cons, List.length_append] at hfuel
        omega
      rw [all?_statement (first?_setting hkey hvalue t), ih _ hlength]
      · simp
      · obtain ⟨c, tail, rfl, hc⟩ := hkey.exists_cons
        have hne {d : Char} (hd : isKeyChar d = false) : c ≠ d := by
          rintro rfl
          rw [hc] at hd
          cases hd
        exact ⟨c, _, rfl, isBlank_of_isKeyChar hc, hne rfl, hne rfl, hne rfl⟩

end Statement

/-- A document that consists of lines has the entries that their statements make. -/
theorem Document.entriesOf?_of_lines {t : Text} {statements : List Statement}
    (h : Statement.Lines t statements) :
    entriesOf? t = (statements.foldlM run {}).map (·.entries) := by
  have hmark : t.head? ≠ some '\ufeff' := by
    cases h with
    | done => simp
    | empty => simp
    | header => simp
    | setting hkey =>
        intro hsame
        obtain ⟨more, hmore⟩ := List.head?_eq_some_iff.mp hsame
        exact hkey.append_ne_cons (by decide) _ _ hmore
  rw [entriesOf?, if_neg hmark, h.all?_eq [] (Nat.lt_succ_self _), List.reverse_nil,
    List.nil_append, Option.bind_eq_bind, Option.bind_some]
  cases statements.foldlM run {} with
  | none => rfl
  | some document => rfl

end CoolLexer.Toml
