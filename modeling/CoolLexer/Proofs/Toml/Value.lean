import CoolLexer.Toml.Document
import Mathlib.Data.List.Basic

/-!
# Values at the end of a line

A number written in decimal digits, a boolean and a name in quotes are read back from a document,
where a line ends behind them.
-/

namespace CoolLexer.Toml

/-! ### Numbers -/

namespace Scalar

theorem head?_ofNat_ne {n : Nat} (h : n ≠ 0) : (Text.ofNat n).head? ≠ some '0' := by
  induction n using Nat.strongRecOn with
  | ind n ih =>
      rw [Text.ofNat, Nat.toDigits_eq_if (by decide)]
      by_cases hsmall : n < 10
      · rw [if_pos hsmall]
        have hdigit : ∀ d < 10, d ≠ 0 → d.digitChar ≠ '0' := by decide
        simpa using hdigit n hsmall h
      · rw [if_neg hsmall, List.head?_append_of_ne_nil _ Nat.toDigits_ne_nil]
        exact ih (n / 10) (by omega) (by omega)

theorem isDigitIn_of_isDigit {c : Char} (h : c.isDigit = true) : Text.isDigitIn 10 c = true := by
  obtain ⟨hlow, hhigh⟩ := Char.isDigit_iff_toNat.mp h
  have hvalue : c.toNat - '0'.toNat < 10 := by
    have hzero : '0'.toNat = 48 := rfl
    have hnine : '9'.toNat = 57 := rfl
    omega
  rw [Text.isDigitIn, Text.hexValue?, if_pos h]
  exact decide_eq_true hvalue

theorem digits?_ofNat (n : Nat) : digits? 10 (Text.ofNat n) = some (Text.ofNat n) := by
  have hgroups : (Text.ofNat n).splitOn '_' = [Text.ofNat n] :=
    List.splitOn_eq_singleton Nat.underscore_not_in_toDigits
  have hall : (Text.ofNat n).all (Text.isDigitIn 10) = true :=
    List.all_eq_true.mpr fun c hc => isDigitIn_of_isDigit (Text.isDigit_of_mem_ofNat hc)
  simp [digits?, hgroups, hall, Text.ofNat_ne_nil]

theorem decimalDigits?_ofNat (n : Nat) : decimalDigits? (Text.ofNat n) = some (Text.ofNat n) := by
  rw [decimalDigits?, digits?_ofNat]
  by_cases hzero : n = 0
  · rw [hzero]
    rfl
  · have hhead := head?_ofNat_ne hzero
    split
    · next hdigits => simp [Option.some.inj hdigits] at hhead
    · next hdigits => simp [Option.some.inj hdigits] at hhead
    · rfl

theorem decimalInteger?_ofNat (n : Nat) : decimalInteger? (Text.ofNat n) = some (n : Int) := by
  have hsign : splitSign (Text.ofNat n) = (none, Text.ofNat n) := by
    unfold splitSign
    split
    · next rest hdigits =>
        have hdigit := @Text.isDigit_of_mem_ofNat n '+' (by simp [hdigits])
        exact absurd hdigit (by decide)
    · next rest hdigits =>
        have hdigit := @Text.isDigit_of_mem_ofNat n '-' (by simp [hdigits])
        exact absurd hdigit (by decide)
    · rfl
  simp [decimalInteger?, hsign, decimalDigits?_ofNat, Text.decimal_ofNat]

/-- The digits of a number begin no other notation. -/
theorem unboundedInteger?_ofNat (n : Nat) : unboundedInteger? (Text.ofNat n) = some (n : Int) := by
  by_cases hzero : n = 0
  · rw [hzero]
    rfl
  · have hhead := head?_ofNat_ne hzero
    unfold unboundedInteger?
    split
    · next hdigits => simp [hdigits] at hhead
    · next hdigits => simp [hdigits] at hhead
    · next hdigits => simp [hdigits] at hhead
    · exact decimalInteger?_ofNat n

theorem ofRun?_ofNat {n : Nat} (h : n < integerBound) :
    ofRun? (Text.ofNat n) = some (.integer n) := by
  have hword {word : Text} {c : Char} (hc : c ∈ word) (hdigit : c.isDigit = false) :
      Text.ofNat n ≠ word := by
    rintro rfl
    rw [Text.isDigit_of_mem_ofNat hc] at hdigit
    cases hdigit
  have hinteger : integer? (Text.ofNat n) = some (n : Int) := by
    rw [integer?, unboundedInteger?_ofNat, Option.filter_some, if_pos]
    simp only [Bool.and_eq_true, decide_eq_true_eq]
    omega
  rw [ofRun?, if_neg (hword (c := 't') (by decide) (by decide)),
    if_neg (hword (c := 'f') (by decide) (by decide)), hinteger]

end Scalar

/-! ### Names in quotes -/

namespace Quoted

/-- A character that stands for itself between quotes. -/
def IsPlain (c : Char) : Prop := isPrintable c = true ∧ c ≠ '"' ∧ c ≠ '\\'

instance (c : Char) : Decidable (IsPlain c) := inferInstanceAs (Decidable (_ ∧ _ ∧ _))

theorem basic?_quote (read rest : Text) :
    basic? false read .plain ('"' :: rest) = some (read.reverse, rest) := by
  rw [basic?.eq_def]
  rfl

theorem basic?_plain {c : Char} (h : IsPlain c) (read rest : Text) :
    basic? false read .plain (c :: rest) = basic? false (c :: read) .plain rest := by
  obtain ⟨hprintable, hquote, hbackslash⟩ := h
  have hreturn : c ≠ '\r' := by
    rintro rfl
    cases hprintable
  rw [basic?.eq_def]
  simp only []
  split
  · exact absurd rfl hquote
  · exact absurd rfl hbackslash
  · exact absurd rfl hbackslash
  · exact absurd rfl hbackslash
  · exact absurd rfl hreturn
  · simp [hprintable, hbackslash]

theorem basic?_append {name : Text} (h : ∀ c ∈ name, IsPlain c) (read rest : Text) :
    basic? false read .plain (name ++ '"' :: rest) = some (read.reverse ++ name, rest) := by
  induction name generalizing read with
  | nil =>
      rw [List.nil_append, basic?_quote, List.append_nil]
  | cons c name ih =>
      obtain ⟨hc, hname⟩ := List.forall_mem_cons.mp h
      rw [List.cons_append, basic?_plain hc, ih hname, List.reverse_cons, List.append_assoc]
      rfl

theorem string?_quoted {name : Text} (h : ∀ c ∈ name, IsPlain c) (hname : name ≠ [])
    (rest : Text) : string? ('"' :: (name ++ '"' :: rest)) = some (name, rest) := by
  obtain ⟨c, tail, rfl⟩ := List.exists_cons_of_ne_nil hname
  have hquote : c ≠ '"' := (h c List.mem_cons_self).2.1
  have hline : string? ('"' :: (c :: tail ++ '"' :: rest)) =
      line? ('"' :: (c :: tail ++ '"' :: rest)) := by
    unfold string?
    split
    · next hlines =>
        rw [List.cons_append, List.cons.injEq, List.cons.injEq] at hlines
        exact absurd hlines.2.1 hquote
    · next hlines => cases hlines
    · rfl
  rw [hline, line?, basic?_append h]
  rfl

end Quoted

/-! ### Values -/

namespace Statement

/-- A text denotes a value where the line ends behind it. -/
structure EndsLine (t : Text) (value : Value) : Prop where
  starts : t.head?.any (fun c => !Quoted.isBlank c) = true
  reads : ∀ depth rest, value? depth (t ++ '\n' :: rest) = some (value, '\n' :: rest)

theorem isKeyChar_of_isAlphanum {c : Char} (h : c.isAlphanum = true) : isKeyChar c = true := by
  simp [isKeyChar, h]

theorem isBlank_of_isKeyChar {c : Char} (h : isKeyChar c = true) : Quoted.isBlank c = false := by
  by_contra hblank
  rw [Bool.not_eq_false, Quoted.isBlank, Bool.or_eq_true, beq_iff_eq, beq_iff_eq] at hblank
  rcases hblank with rfl | rfl
  · cases h
  · cases h

theorem scalarRun_append {run : Text} (h : ∀ c ∈ run, c.isAlphanum = true) (rest : Text) :
    scalarRun (run ++ '\n' :: rest) = (run, '\n' :: rest) := by
  have hall : ∀ c ∈ run, isScalarChar c = true := fun c hc => by simp [isScalarChar, h c hc]
  rw [scalarRun, List.takeWhile_append_of_pos hall, List.dropWhile_append_of_pos hall]
  simp [isScalarChar]

theorem endsLine_scalar {run : Text} {value : Value} (h : ∀ c ∈ run, c.isAlphanum = true)
    (hrun : run ≠ []) (hvalue : Scalar.ofRun? run = some value) : EndsLine run value := by
  obtain ⟨c, tail, rfl⟩ := List.exists_cons_of_ne_nil hrun
  have hc : c.isAlphanum = true := h c List.mem_cons_self
  refine ⟨by simp [isBlank_of_isKeyChar (isKeyChar_of_isAlphanum hc)], ?_⟩
  intro depth rest
  have hhead {d : Char} (hd : d.isAlphanum = false) (more : Text) :
      c :: tail ++ '\n' :: rest ≠ d :: more := by
    intro hsame
    rw [← (List.cons.inj hsame).1, hc] at hd
    cases hd
  rw [value?.eq_def]
  simp only []
  split
  · next hquote => exact absurd hquote (hhead rfl _)
  · next hquote => exact absurd hquote (hhead rfl _)
  · next hbracket => exact absurd hbracket (hhead rfl _)
  · next hbrace => exact absurd hbrace (hhead rfl _)
  · rw [scalarRun_append h]
    simp only [hvalue, Option.map_some]

theorem endsLine_number {n : Nat} (h : n < Scalar.integerBound) :
    EndsLine (Text.ofNat n) (.integer n) := by
  apply endsLine_scalar _ (Text.ofNat_ne_nil n) (Scalar.ofRun?_ofNat h)
  intro c hc
  simp [Char.isAlphanum, Text.isDigit_of_mem_ofNat hc]

theorem endsLine_quoted {name : Text} (h : ∀ c ∈ name, Quoted.IsPlain c) (hname : name ≠ []) :
    EndsLine ('"' :: name ++ ['"']) (.string name) := by
  refine ⟨rfl, ?_⟩
  intro depth rest
  have hread := Quoted.string?_quoted h hname ('\n' :: rest)
  have htext : '"' :: name ++ ['"'] ++ '\n' :: rest = '"' :: (name ++ '"' :: '\n' :: rest) := by
    simp
  rw [htext, value?.eq_def]
  simp only [hread, Option.map_some]

end Statement

end CoolLexer.Toml
