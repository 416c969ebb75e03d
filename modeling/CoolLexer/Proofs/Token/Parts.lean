import CoolLexer.Token.Basic
import Mathlib.Data.List.Basic

/-!
# Tokens and their parts

A token is made of a kind and a value. Taking a token apart and putting it together again are
inverse to each other on the tokens whose value suits their kind, and every other kind and value are
refused with the error that says why.
-/

namespace CoolLexer

namespace LexicalError

theorem ofMessage?_message (error : LexicalError) : ofMessage? error.message = some error := by
  cases error <;> rfl

theorem eq_of_message {a b : LexicalError} (h : a.message = b.message) : a = b := by
  have hread := congrArg ofMessage? h
  rw [ofMessage?_message, ofMessage?_message] at hread
  exact Option.some.inj hread

theorem message_eq_of_ofMessage? {text : Text} {error : LexicalError}
    (h : ofMessage? text = some error) : error.message = text := by
  unfold ofMessage? at h
  split at h
  · next c hlead =>
      obtain rfl := Option.some.inj h
      exact List.append_eq_of_isPrefixOf?_eq_some hlead
  · cases h
  · have := List.find?_some h
    simpa using this

theorem ofMessage?_eq_some_iff {text : Text} {error : LexicalError} :
    ofMessage? text = some error ↔ text = error.message := by
  constructor
  · intro h
    exact (message_eq_of_ofMessage? h).symm
  · rintro rfl
    exact ofMessage?_message error

theorem ofMessage?_eq_none_iff {text : Text} :
    ofMessage? text = none ↔ ∀ error : LexicalError, error.message ≠ text := by
  rw [Option.eq_none_iff_forall_ne_some]
  exact forall_congr' fun error => not_congr (ofMessage?_eq_some_iff.trans eq_comm)

end LexicalError

theorem Kind.eq_of_name {a b : Kind} (h : a.name = b.name) : a = b := by
  have hread := congrArg ofName? h
  rw [ofName?_name, ofName?_name] at hread
  exact Option.some.inj hread

/-- When a kind and a value are refused, and with which error. Whether there is a value comes before
what the value is. -/
inductive Refused : Kind → Option Text → ValueError → Prop
  | missing {kind : Kind} : kind.hasValue = true → Refused kind none (.missing kind)
  | unexpected {kind : Kind} (value : Text) : kind.hasValue = false →
      Refused kind (some value) (.unexpected kind)
  | boolean {value : Text} : value ≠ "true".toList → value ≠ "false".toList →
      Refused .boolean (some value) (.invalid .boolean value)
  | name {kind : Kind} : kind = .className ∨ kind = .identifier →
      Refused kind (some []) (.invalid kind [])
  | digits {value : Text} : value = [] ∨ (∃ c ∈ value, c.isDigit = false) →
      Refused .integer (some value) (.invalid .integer value)
  | message {value : Text} : (∀ error : LexicalError, error.message ≠ value) →
      Refused .illegal (some value) (.unknownMessage value)

namespace Token

/-- The value of the token suits its kind: digits for numbers, and no empty names. -/
def SoundValue : Token → Prop
  | integer digits => digits ≠ [] ∧ ∀ c ∈ digits, c.isDigit = true
  | className name | identifier name => name ≠ []
  | _ => True

instance : (token : Token) → Decidable token.SoundValue
  | integer digits =>
      decidable_of_iff (digits ≠ [] ∧ digits.all Char.isDigit = true)
        (by rw [List.all_eq_true]; rfl)
  | className name | identifier name => inferInstanceAs (Decidable (name ≠ []))
  | symbol _ | keyword _ | boolean _ | string _ | illegal _ | endOfInput =>
      inferInstanceAs (Decidable True)

theorem ofParts_kind_value? {token : Token} (h : token.SoundValue) :
    ofParts token.kind token.value? = .ok token := by
  cases token with
  | boolean value => cases value <;> rfl
  | className name =>
      cases name with
      | nil => exact absurd rfl h
      | cons c name => rfl
  | identifier name =>
      cases name with
      | nil => exact absurd rfl h
      | cons c name => rfl
  | integer digits =>
      obtain ⟨hne, hdigits⟩ := h
      have hempty : digits.isEmpty = false := by simpa using hne
      have hall : digits.all Char.isDigit = true := List.all_eq_true.mpr hdigits
      simp only [kind, value?, ofParts, hempty, hall]
      rfl
  | illegal error =>
      simp only [kind, value?, ofParts, LexicalError.ofMessage?_message]
  | _ => rfl

private theorem ofParts_some {kind : Kind} {value : Text} {token : Token}
    (h : ofParts kind (some value) = .ok token) :
    token.kind = kind ∧ token.value? = some value ∧ token.SoundValue := by
  cases kind with
  | boolean =>
      by_cases htrue : value = booleanText true
      · simp only [ofParts, htrue, if_true] at h
        obtain rfl := Except.ok.inj h
        exact ⟨rfl, congrArg some htrue.symm, trivial⟩
      by_cases hfalse : value = booleanText false
      · simp only [ofParts, if_neg htrue, if_pos hfalse] at h
        obtain rfl := Except.ok.inj h
        exact ⟨rfl, congrArg some hfalse.symm, trivial⟩
      · simp only [ofParts, if_neg htrue, if_neg hfalse] at h
        cases h
  | className =>
      cases value with
      | nil => cases h
      | cons c name =>
          obtain rfl := Except.ok.inj h
          exact ⟨rfl, rfl, List.cons_ne_nil c name⟩
  | identifier =>
      cases value with
      | nil => cases h
      | cons c name =>
          obtain rfl := Except.ok.inj h
          exact ⟨rfl, rfl, List.cons_ne_nil c name⟩
  | integer =>
      by_cases hbad : (value.isEmpty || !value.all Char.isDigit) = true
      · simp only [ofParts, if_pos hbad] at h
        cases h
      · simp only [ofParts, if_neg hbad] at h
        obtain rfl := Except.ok.inj h
        refine ⟨rfl, rfl, ?_⟩
        simpa [SoundValue] using hbad
  | string =>
      obtain rfl := Except.ok.inj h
      exact ⟨rfl, rfl, trivial⟩
  | illegal =>
      cases hmessage : LexicalError.ofMessage? value with
      | none =>
          simp only [ofParts, hmessage] at h
          cases h
      | some error =>
          simp only [ofParts, hmessage] at h
          obtain rfl := Except.ok.inj h
          exact ⟨rfl, congrArg some (LexicalError.message_eq_of_ofMessage? hmessage), trivial⟩
  | _ => cases h

/-- A token put together has the parts it was put together from. -/
theorem of_ofParts_eq_ok {kind : Kind} {value : Option Text} {token : Token}
    (h : ofParts kind value = .ok token) :
    token.kind = kind ∧ token.value? = value ∧ token.SoundValue := by
  cases value with
  | some value => exact ofParts_some h
  | none =>
      cases kind with
      | symbol s =>
          obtain rfl := Except.ok.inj h
          exact ⟨rfl, rfl, trivial⟩
      | keyword k =>
          obtain rfl := Except.ok.inj h
          exact ⟨rfl, rfl, trivial⟩
      | endOfInput =>
          obtain rfl := Except.ok.inj h
          exact ⟨rfl, rfl, trivial⟩
      | _ => cases h

/-- Kind and value determine a token, whether or not they suit each other. -/
theorem eq_of_kind_of_value? {a b : Token} (hkind : a.kind = b.kind)
    (hvalue : a.value? = b.value?) : a = b := by
  cases a with
  | symbol s | keyword k | endOfInput =>
      cases b <;> cases hkind
      rfl
  | boolean value =>
      cases b <;> cases hkind
      next other => cases value <;> cases other <;> first | rfl | exact absurd hvalue (by decide)
  | illegal error =>
      cases b <;> cases hkind
      rw [LexicalError.eq_of_message (Option.some.inj hvalue)]
  | className _ | identifier _ | integer _ | string _ =>
      cases b <;> cases hkind
      cases hvalue
      rfl

theorem hasValue_kind (token : Token) : token.kind.hasValue = token.value?.isSome := by
  cases token <;> rfl

private theorem ofParts_of_refused {kind : Kind} {value : Option Text} {e : ValueError}
    (h : Refused kind value e) : ofParts kind value = .error e := by
  cases h with
  | missing hvalue => cases kind <;> first | rfl | cases hvalue
  | unexpected value hvalue => cases kind <;> first | rfl | cases hvalue
  | boolean htrue hfalse => exact (if_neg htrue).trans (if_neg hfalse)
  | name hkind => rcases hkind with rfl | rfl <;> rfl
  | @digits value hbad =>
      have hbad : (value.isEmpty || !value.all Char.isDigit) = true := by simpa using hbad
      exact if_pos hbad
  | message hunknown => simp only [ofParts, LexicalError.ofMessage?_eq_none_iff.mpr hunknown]

private theorem sound_or_refused (kind : Kind) (value : Option Text) :
    (∃ token : Token, token.kind = kind ∧ token.value? = value ∧ token.SoundValue) ∨
      ∃ e, Refused kind value e := by
  cases value with
  | none =>
      cases kind with
      | symbol s => exact .inl ⟨symbol s, rfl, rfl, trivial⟩
      | keyword k => exact .inl ⟨keyword k, rfl, rfl, trivial⟩
      | endOfInput => exact .inl ⟨endOfInput, rfl, rfl, trivial⟩
      | _ => exact .inr ⟨_, .missing rfl⟩
  | some value =>
      cases kind with
      | symbol | keyword | endOfInput => exact .inr ⟨_, .unexpected value rfl⟩
      | string => exact .inl ⟨string value, rfl, rfl, trivial⟩
      | boolean =>
          by_cases htrue : value = "true".toList
          · exact .inl ⟨boolean true, rfl, congrArg some htrue.symm, trivial⟩
          by_cases hfalse : value = "false".toList
          · exact .inl ⟨boolean false, rfl, congrArg some hfalse.symm, trivial⟩
          · exact .inr ⟨_, .boolean htrue hfalse⟩
      | className =>
          cases value with
          | nil => exact .inr ⟨_, .name (.inl rfl)⟩
          | cons c name => exact .inl ⟨className (c :: name), rfl, rfl, List.cons_ne_nil c name⟩
      | identifier =>
          cases value with
          | nil => exact .inr ⟨_, .name (.inr rfl)⟩
          | cons c name => exact .inl ⟨identifier (c :: name), rfl, rfl, List.cons_ne_nil c name⟩
      | integer =>
          by_cases hsound : (integer value).SoundValue
          · exact .inl ⟨integer value, rfl, rfl, hsound⟩
          · refine .inr ⟨_, .digits ?_⟩
            simpa [SoundValue, or_iff_not_imp_left] using hsound
      | illegal =>
          cases hmessage : LexicalError.ofMessage? value with
          | none => exact .inr ⟨_, .message (LexicalError.ofMessage?_eq_none_iff.mp hmessage)⟩
          | some error =>
              have hvalue := LexicalError.ofMessage?_eq_some_iff.mp hmessage
              exact .inl ⟨illegal error, rfl, congrArg some hvalue.symm, trivial⟩

theorem ofParts_eq_ok_iff {kind : Kind} {value : Option Text} {token : Token} :
    ofParts kind value = .ok token ↔
      token.kind = kind ∧ token.value? = value ∧ token.SoundValue := by
  constructor
  · exact of_ofParts_eq_ok
  · rintro ⟨rfl, rfl, hsound⟩
    exact ofParts_kind_value? hsound

theorem ofParts_eq_error_iff {kind : Kind} {value : Option Text} {e : ValueError} :
    ofParts kind value = .error e ↔ Refused kind value e := by
  constructor
  · intro h
    rcases sound_or_refused kind value with ⟨token, hparts⟩ | ⟨e', hrefused⟩
    · cases h.symm.trans (ofParts_eq_ok_iff.mpr hparts)
    · obtain rfl := Except.error.inj (h.symm.trans (ofParts_of_refused hrefused))
      exact hrefused
  · exact ofParts_of_refused

/-- Putting a token together is inverse to taking it apart, and reading an error message to writing
it. Every other kind and value are refused with the error that says why. -/
theorem ofParts_inverts_parts :
    (∀ (kind : Kind) (value : Option Text) (token : Token), ofParts kind value = .ok token ↔
      token.kind = kind ∧ token.value? = value ∧ token.SoundValue) ∧
    (∀ (text : Text) (error : LexicalError),
      LexicalError.ofMessage? text = some error ↔ text = error.message) ∧
    ∀ (kind : Kind) (value : Option Text) (e : ValueError),
      ofParts kind value = .error e ↔ Refused kind value e :=
  ⟨fun _ _ _ => ofParts_eq_ok_iff, fun _ _ => LexicalError.ofMessage?_eq_some_iff,
    fun _ _ _ => ofParts_eq_error_iff⟩

end Token

end CoolLexer
