import CoolLexer.Json.Text
import CoolLexer.Proofs.Json.Reader
import Mathlib.Data.List.DropRight
import Mathlib.Data.List.Forall2
import Mathlib.Tactic.ByContra

/-!
# What the reader of JSON takes

The reader takes numbers, quoted texts, and arrays and objects with one item a line, whatever is
behind them.
-/

namespace CoolLexer.Json

variable {α : Type}

/-- A text to read can be told from what is behind it. -/
def Ends (rest : Text) : Prop := rest.head?.all (fun c => !c.isAlphanum) = true

/-- A reader takes a text for a value, whatever is behind the text. -/
def Takes (read : Text → Option (α × Text)) (t : Text) (a : α) : Prop :=
  ∀ rest, Ends rest → read (t ++ rest) = some (a, rest)

theorem ends_cons {c : Char} (h : c.isAlphanum = false) (rest : Text) : Ends (c :: rest) := by
  simp [Ends, h]

theorem skipBlanks_append {blanks : Text} (h : blanks.all isBlank = true) (t : Text) :
    skipBlanks (blanks ++ t) = skipBlanks t :=
  List.dropWhile_append_of_pos (List.all_eq_true.mp h)

theorem skipBlanks_cons {c : Char} (h : isBlank c = false) (t : Text) :
    skipBlanks (c :: t) = c :: t :=
  List.dropWhile_cons_of_neg (by simp [h])

theorem ofHex?_hexDigit {n : Nat} (h : n < 0x20) :
    ofHex? ['0', '0', hexDigit (n / 16), hexDigit n] = some (Char.ofNat n) := by
  have hall : ∀ n < 0x20,
      ofHex? ['0', '0', hexDigit (n / 16), hexDigit n] = some (Char.ofNat n) := by decide
  exact hall n h

theorem escape_cases (c : Char) :
    (∃ e, escape c = ['\\', e] ∧ unescape? e = some c) ∨
    (c.toNat < 0x20 ∧
      escape c = ['\\', 'u', '0', '0', hexDigit (c.toNat / 16), hexDigit c.toNat]) ∨
    (c ≠ '"' ∧ c ≠ '\\' ∧ ¬c.toNat < 0x20 ∧ escape c = [c]) := by
  by_cases hshort : c = '"' ∨ c = '\\' ∨ c = '\x08' ∨ c = '\t' ∨ c = '\n' ∨ c = '\x0c' ∨ c = '\r'
  · left
    rcases hshort with rfl | rfl | rfl | rfl | rfl | rfl | rfl
    · exact ⟨'"', rfl, rfl⟩
    · exact ⟨'\\', rfl, rfl⟩
    · exact ⟨'b', rfl, rfl⟩
    · exact ⟨'t', rfl, rfl⟩
    · exact ⟨'n', rfl, rfl⟩
    · exact ⟨'f', rfl, rfl⟩
    · exact ⟨'r', rfl, rfl⟩
  · simp only [not_or] at hshort
    obtain ⟨hquote, hbackslash, h8, ht, hn, hf, hr⟩ := hshort
    unfold escape
    simp only [hquote, hbackslash, h8, ht, hn, hf, hr, if_false]
    by_cases hcontrol : c.toNat < 0x20
    · exact .inr (.inl ⟨hcontrol, if_pos hcontrol⟩)
    · exact .inr (.inr ⟨hquote, hbackslash, hcontrol, if_neg hcontrol⟩)

/-- A short escape is read as the character that it stands for. -/
theorem readChars_backslash {e c : Char} (h : unescape? e = some c) (rest : Text) :
    readChars ('\\' :: e :: rest) = (readChars rest).map fun (t, rest) => (c :: t, rest) := by
  have hu : e ≠ 'u' := by
    rintro rfl
    cases h
  rw [readChars]
  · simp only [h]
    cases readChars rest <;> rfl
  · intro _ _ _ _ _ he
    exact absurd he hu

theorem readChars_plain {c : Char} (hquote : c ≠ '"') (hbackslash : c ≠ '\\')
    (hcontrol : ¬c.toNat < 0x20) (rest : Text) :
    readChars (c :: rest) = (readChars rest).map fun (t, rest) => (c :: t, rest) := by
  rw [readChars.eq_def]
  simp only [if_neg hquote, if_neg hbackslash, if_neg hcontrol]
  cases readChars rest <;> rfl

theorem readChars_escape (c : Char) (rest : Text) :
    readChars (escape c ++ rest) = (readChars rest).map fun (t, rest) => (c :: t, rest) := by
  rcases escape_cases c with ⟨e, hescape, hread⟩ | ⟨hcontrol, hescape⟩ |
    ⟨hquote, hbackslash, hcontrol, hescape⟩
  · rw [hescape]
    exact readChars_backslash hread rest
  · rw [hescape]
    have hhex := ofHex?_hexDigit hcontrol
    rw [Char.ofNat_toNat] at hhex
    show readChars ('\\' :: 'u' :: '0' :: '0' :: _ :: _ :: rest) = _
    rw [readChars]
    simp only [hhex]
    cases readChars rest <;> rfl
  · rw [hescape]
    exact readChars_plain hquote hbackslash hcontrol rest

/-- A quoted text is read back. -/
theorem readChars_flatMap_escape (t rest : Text) :
    readChars (t.flatMap escape ++ '"' :: rest) = some (t, rest) := by
  induction t with
  | nil =>
      show readChars ('"' :: rest) = _
      rw [readChars.eq_def]
      rfl
  | cons c t ih =>
      rw [List.flatMap_cons, List.append_assoc, readChars_escape, ih]
      rfl

/-! ### Literals -/

theorem takes_readLiteral {word : Text} {v : Value} (h : word.all Char.isAlphanum = true)
    (hword : literal? word = some v) : Takes readLiteral word v := by
  intro rest hends
  have hrest : rest.takeWhile Char.isAlphanum = [] ∧ rest.dropWhile Char.isAlphanum = rest := by
    cases rest with
    | nil => exact ⟨rfl, rfl⟩
    | cons c rest =>
        have hc : ¬c.isAlphanum = true := by simpa [Ends] using hends
        exact ⟨List.takeWhile_cons_of_neg hc, List.dropWhile_cons_of_neg hc⟩
  rw [readLiteral, List.takeWhile_append_of_pos (List.all_eq_true.mp h),
    List.dropWhile_append_of_pos (List.all_eq_true.mp h), hrest.1, hrest.2, List.append_nil, hword]
  rfl

theorem literal?_ofNat (n : Nat) : literal? (Text.ofNat n) = some (.number n) := by
  have hdigits : (Text.ofNat n).all Char.isDigit = true :=
    List.all_eq_true.mpr fun _ h => Text.isDigit_of_mem_ofNat h
  rw [literal?, Text.decimal_ofNat, hdigits]
  simp

/-! ### Values -/

theorem readValue_skipBlanks (depth : Nat) (t : Text) :
    readValue depth (skipBlanks t) = readValue depth t := by
  cases depth with
  | zero => rfl
  | succ depth =>
      have hskip : skipBlanks (skipBlanks t) = skipBlanks t := List.dropWhile_idempotent _ _
      rw [readValue, readValue, hskip]

theorem readMember_skipBlanks (value : Text → Option (Value × Text)) (t : Text) :
    readMember value (skipBlanks t) = readMember value t := by
  have hskip : skipBlanks (skipBlanks t) = skipBlanks t := List.dropWhile_idempotent _ _
  rw [readMember, readMember, hskip]

/-- A reader that skips the blanks in front takes a text with blanks in front. -/
theorem Takes.blanks {read : Text → Option (α × Text)} {t blanks : Text} {a : α}
    (h : Takes read t a) (hread : ∀ t, read (skipBlanks t) = read t)
    (hblanks : blanks.all isBlank = true) : Takes read (blanks ++ t) a := by
  intro rest hends
  rw [← hread, List.append_assoc, skipBlanks_append hblanks, hread]
  exact h rest hends

variable (depth : Nat)

theorem readValue_of_isAlphanum {c : Char} (h : c.isAlphanum = true) (t : Text) :
    readValue (depth + 1) (c :: t) = readLiteral (c :: t) := by
  have hblank : isBlank c = false := by
    by_contra hc
    simp only [isBlank, Bool.not_eq_false, Bool.or_eq_true, beq_iff_eq] at hc
    obtain ((rfl | rfl) | rfl) | rfl := hc <;> exact absurd h (by decide)
  rw [readValue, skipBlanks_cons hblank]
  split
  case h_4 => rfl
  all_goals
    next hc =>
    cases hc
    exact absurd h (by decide)

theorem takes_value_of_literal {word : Text} {v : Value} (hne : word ≠ [])
    (h : word.all Char.isAlphanum = true) (hword : literal? word = some v) :
    Takes (readValue (depth + 1)) word v := by
  intro rest hends
  cases word with
  | nil => exact absurd rfl hne
  | cons c word =>
      show readValue (depth + 1) (c :: (word ++ rest)) = _
      rw [readValue_of_isAlphanum depth (List.all_eq_true.mp h c List.mem_cons_self)]
      exact takes_readLiteral h hword rest hends

theorem takes_value_number (n : Nat) :
    Takes (readValue (depth + 1)) (Text.ofNat n) (.number n) := by
  apply takes_value_of_literal depth (Text.ofNat_ne_nil n) _ (literal?_ofNat n)
  rw [List.all_eq_true]
  intro c h
  rw [Char.isAlphanum, Text.isDigit_of_mem_ofNat h, Bool.or_true]

theorem takes_value_null : Takes (readValue (depth + 1)) "null".toList .null :=
  takes_value_of_literal depth (by decide) rfl rfl

theorem takes_value_quote (t : Text) : Takes (readValue (depth + 1)) (quote t) (.string t) := by
  intro rest _
  show (readChars (t.flatMap escape ++ ['"'] ++ rest)).map _ = _
  rw [List.append_assoc]
  show (readChars (t.flatMap escape ++ '"' :: rest)).map _ = _
  rw [readChars_flatMap_escape]
  rfl

theorem takes_member {value : Text → Option (Value × Text)} {t : Text} {v : Value}
    (h : Takes value t v) (name : Text) :
    Takes (readMember value) (quote name ++ ':' :: t) (name, v) := by
  intro rest hends
  have hsplit : quote name ++ ':' :: t ++ rest =
      '"' :: (name.flatMap escape ++ '"' :: ':' :: (t ++ rest)) := by simp [quote]
  rw [hsplit, readMember, skipBlanks_cons (by decide)]
  simp only [readChars_flatMap_escape, Option.bind_eq_bind, Option.bind_some]
  rw [skipBlanks_cons (by decide)]
  simp only [h rest hends, Option.bind_some]
  rfl

/-! ### Lists -/

section
variable {item : Text → Option (α × Text)} {close : Char} {texts : List Text} {values : List α}

/-- Items with commas between them are read up to the bracket that closes the list. -/
theorem readItems_intercalate (h : List.Forall₂ (Takes item) texts values) (hne : texts ≠ [])
    (hclose : close = ']' ∨ close = '\x7d') {blanks : Text}
    (hblanks : blanks.all isBlank = true) {size : Nat}
    (hsize : texts.length ≤ size) (rest : Text) :
    readItems item close size ([','].intercalate texts ++ '\n' :: (blanks ++ close :: rest)) =
      some (values, rest) := by
  have hskip : skipBlanks ('\n' :: (blanks ++ close :: rest)) = close :: rest := by
    have hnewline : ('\n' :: blanks).all isBlank = true := hblanks
    rw [← List.cons_append, skipBlanks_append hnewline, skipBlanks_cons]
    rcases hclose with rfl | rfl <;> decide
  -- What follows an item, a comma or the last line break, does not go on with it.
  induction h generalizing size with
  | nil => exact absurd rfl hne
  | @cons t v texts values hitem hitems ih =>
    obtain _ | size := size
    · simp at hsize
    rw [readItems]
    cases hitems with
    | nil =>
      have hends : Ends ('\n' :: (blanks ++ close :: rest)) := ends_cons (by decide) _
      have hne : close ≠ ',' := by rcases hclose with rfl | rfl <;> decide
      rw [List.intercalate_singleton, hitem _ hends]
      simp only [Option.bind_eq_bind, Option.bind_some, hskip, if_neg hne, if_true]
    | cons hnext hitems =>
      have hrest := ih (List.cons_ne_nil _ _) (Nat.le_of_succ_le_succ hsize)
      have hcomma : isBlank ',' = false := by decide
      rw [List.intercalate_cons_cons, List.append_assoc, List.append_assoc]
      simp only [List.cons_append, List.nil_append]
      rw [hitem _ (ends_cons (by decide) _)]
      simp only [Option.bind_eq_bind, Option.bind_some, skipBlanks_cons hcomma, if_true, hrest]
      rfl

/-- Fewer items than the length of the list with commas between them. -/
theorem length_le_intercalate (texts : List Text) :
    texts.length ≤ ([','].intercalate texts).length + 1 := by
  induction texts with
  | nil => exact Nat.zero_le _
  | cons t texts ih =>
      cases texts with
      | nil => exact Nat.le_add_left 1 _
      | cons next texts =>
          rw [List.intercalate_cons_cons]
          simp only [List.length_append, List.length_cons] at ih ⊢
          omega

theorem intercalate_newline (hne : texts ≠ []) :
    '\n' :: ",\n".toList.intercalate texts = [','].intercalate (texts.map ('\n' :: ·)) := by
  induction texts with
  | nil => exact absurd rfl hne
  | cons t texts ih =>
      cases texts with
      | nil => simp
      | cons next texts =>
          rw [List.map_cons, List.map_cons, List.intercalate_cons_cons, List.intercalate_cons_cons,
            ← List.map_cons, ← ih (List.cons_ne_nil _ _)]
          simp

/-- A list with one item a line is read. -/
theorem readList_lines (hitem : ∀ t, item (skipBlanks t) = item t)
    (h : List.Forall₂ (Takes item) texts values) (hne : texts ≠ [])
    (hclose : close = ']' ∨ close = '\x7d') {blanks : Text}
    (hblanks : blanks.all isBlank = true) (rest : Text) :
    readList item close ('\n' :: (",\n".toList.intercalate texts ++
        '\n' :: (blanks ++ close :: rest))) = some (values, rest) := by
  have hlines : List.Forall₂ (Takes item) (texts.map ('\n' :: ·)) values := by
    rw [List.forall₂_map_left_iff]
    apply h.imp
    intro t v ht
    show Takes item (['\n'] ++ t) v
    exact ht.blanks hitem rfl
  have hsize : (texts.map ('\n' :: ·)).length ≤
      ([','].intercalate (texts.map ('\n' :: ·)) ++ '\n' :: (blanks ++ close :: rest)).length := by
    have hlength := length_le_intercalate (texts.map ('\n' :: ·))
    rw [List.length_append, List.length_cons]
    omega
  have hitems := readItems_intercalate hlines (by simpa using hne) hclose hblanks hsize rest
  rw [← List.cons_append, intercalate_newline hne, readList, hitems]
  rfl

end

/-- An array with one item a line is read. -/
theorem takes_array {texts : List Text} {values : List Value}
    (h : List.Forall₂ (Takes (readValue depth)) texts values) (hne : texts ≠ []) :
    Takes (readValue (depth + 1))
      ("[\n".toList ++ ",\n".toList.intercalate texts ++ "\n]".toList) (.array values) := by
  intro rest _
  have hnone : [].all isBlank = true := rfl
  have hitems := readList_lines (readValue_skipBlanks depth) h hne (.inl rfl) hnone rest
  have hsplit : "[\n".toList ++ ",\n".toList.intercalate texts ++ "\n]".toList ++ rest =
      '[' :: '\n' :: (",\n".toList.intercalate texts ++ '\n' :: ([] ++ ']' :: rest)) := by simp
  rw [hsplit, readValue, skipBlanks_cons (by decide)]
  simp only [hitems]
  rfl

/-- An object with one member a line is read, also behind blanks. -/
theorem takes_object {texts : List Text} {members : List (Text × Value)}
    (h : List.Forall₂ (Takes (readMember (readValue depth))) texts members) (hne : texts ≠ [])
    {blanks : Text} (hblanks : blanks.all isBlank = true) :
    Takes (readValue (depth + 1))
      (blanks ++ "\x7b\n".toList ++ ",\n".toList.intercalate texts ++ '\n' :: blanks ++ ['\x7d'])
      (.object members) := by
  intro rest _
  have hmembers := readList_lines (readMember_skipBlanks (readValue depth)) h hne (.inr rfl) hblanks
    rest
  have hsplit : blanks ++ "\x7b\n".toList ++ ",\n".toList.intercalate texts ++ '\n' :: blanks ++
      ['\x7d'] ++ rest = blanks ++ '\x7b' :: '\n' :: (",\n".toList.intercalate texts ++
        '\n' :: (blanks ++ '\x7d' :: rest)) := by simp
  rw [hsplit, readValue, skipBlanks_append hblanks, skipBlanks_cons (by decide)]
  simp only [hmembers]
  rfl

end CoolLexer.Json
