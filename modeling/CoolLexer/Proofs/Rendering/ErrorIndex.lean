import CoolLexer.Proofs.Rendering.Reading

/-!
# Where reading a rendering fails

An error tells the index of the token that could not be read. In front of that token stand the
renderings of as many tokens, and the text from there on, read alone, gives the same error about its
first token. Where only the end token is missing, nothing but renderings has been read.
-/

namespace CoolLexer

namespace RenderingError

/-- The index of the token that an error is about, if it tells one. -/
def index? : RenderingError → Option Nat
  | unknownKind index _ | missingValue index _ | unexpectedValue index _ | invalidValue index _ _
  | unterminatedValue index _ | missingSeparator index => some index
  | unknownErrorMessage _ | missingEnd | textAfterEnd => none

/-- The same error about the token at another index. -/
def withIndex (index : Nat) : RenderingError → RenderingError
  | unknownKind _ name => unknownKind index name
  | missingValue _ kind => missingValue index kind
  | unexpectedValue _ kind => unexpectedValue index kind
  | invalidValue _ kind value => invalidValue index kind value
  | unterminatedValue _ kind => unterminatedValue index kind
  | missingSeparator _ => missingSeparator index
  | unknownErrorMessage message => unknownErrorMessage message
  | missingEnd => missingEnd
  | textAfterEnd => textAfterEnd

end RenderingError

/-- The renderings of tokens one after another, each of them with a separator behind it. -/
inductive Delimited (sep : Separator) : List Token → Text → Prop
  | nil : Delimited sep [] []
  | cons (token : Token) {c : Char} {tokens : List Token} {t : Text} :
      sep.Allows c → Delimited sep tokens t →
      Delimited sep (token :: tokens) (token.render ++ c :: t)

namespace Rendering

/-- What a reader that has read `index` tokens stops in front of, and its error. -/
inductive Stops (sep : Separator) (index : Nat) : Text → RenderingError → Prop
  | atEnd : Stops sep index [] .missingEnd
  | unended {token : Token} : token ≠ .endOfInput → Stops sep index token.render .missingEnd
  | atToken {t : Text} {e : RenderingError} : t ≠ [] → readToken sep index t = .error e →
      Stops sep index t e
  | behindEnd {c : Char} {rest : Text} : sep.Allows c → rest ≠ [] →
      Stops sep index (Token.endOfInput.render ++ c :: rest) .textAfterEnd

section
variable (sep : Separator) (index index' : Nat)

private theorem withIndex_at (e : ValueError) : (e.at index).withIndex index' = e.at index' := by
  cases e <;> rfl

private theorem readValue_withIndex (kind : Kind) (t : Text) :
    readValue sep index' kind t =
      (readValue sep index kind t).mapError (·.withIndex index') := by
  unfold readValue
  split
  · split
    · split <;> rfl
    · rfl
  · rfl

private theorem readSeparator_withIndex (t : Text) :
    readSeparator sep index' t = (readSeparator sep index t).mapError (·.withIndex index') := by
  unfold readSeparator
  split
  · rfl
  · split <;> rfl

/-- The index of a token matters for its errors only. -/
theorem readToken_withIndex (t : Text) :
    readToken sep index' t = (readToken sep index t).mapError (·.withIndex index') := by
  unfold readToken
  cases Kind.ofName? (t.takeWhile isNameChar) with
  | none => rfl
  | some kind =>
      simp only [readValue_withIndex sep index index']
      cases readValue sep index kind (t.dropWhile isNameChar) with
      | error e => rfl
      | ok found =>
          obtain ⟨value, after⟩ := found
          cases htoken : Token.ofParts kind value with
          | error e => simp only [Except.mapError, htoken, withIndex_at]
          | ok token =>
              simp only [Except.mapError, htoken, readSeparator_withIndex sep index index']
              cases readSeparator sep index after with
              | error e => rfl
              | ok rest => rfl

end

/-- The error is about the token at `index`, or about the message of a lexical error. -/
def About (index : Nat) (e : RenderingError) : Prop :=
  e.index? = some index ∨ ∃ message, e = .unknownErrorMessage message

section
variable {sep : Separator} {index : Nat} {t : Text} {e : RenderingError}

private theorem about_at (index : Nat) (e : ValueError) : About index (e.at index) := by
  cases e with
  | unknownMessage message => exact .inr ⟨message, rfl⟩
  | _ => exact .inl rfl

private theorem about_of_readValue {kind : Kind} (h : readValue sep index kind t = .error e) :
    About index e := by
  unfold readValue at h
  split at h
  · split at h
    · split at h
      · cases h
      · obtain rfl := Except.error.inj h
        exact .inl rfl
    · obtain rfl := Except.error.inj h
      exact .inl rfl
  · cases h

private theorem about_of_readSeparator (h : readSeparator sep index t = .error e) :
    About index e := by
  unfold readSeparator at h
  split at h
  · cases h
  · split at h
    · cases h
    · obtain rfl := Except.error.inj h
      exact .inl rfl

theorem about_of_readToken (h : readToken sep index t = .error e) : About index e := by
  unfold readToken at h
  split at h
  · obtain rfl := Except.error.inj h
    exact .inl rfl
  · split at h
    · next hvalue =>
        obtain rfl := Except.error.inj h
        exact about_of_readValue hvalue
    · split at h
      · obtain rfl := Except.error.inj h
        exact about_at index _
      · split at h
        · next hsep =>
            obtain rfl := Except.error.inj h
            exact about_of_readSeparator hsep
        · cases h

/-- A failed reading has read tokens up to where it stops. -/
theorem exists_stops {read : Array Token} (h : readTokensAfter sep read t = .error e) :
    ∃ tokens x y, t = x ++ y ∧ Token.endOfInput ∉ tokens ∧ Delimited sep tokens x ∧
      Stops sep (read.size + tokens.length) y e := by
  fun_induction readTokensAfter sep read t with
  | case1 read t hempty =>
      obtain rfl := List.isEmpty_iff.mp hempty
      obtain rfl := Except.error.inj h
      exact ⟨[], [], [], rfl, List.not_mem_nil, .nil, .atEnd⟩
  | case2 read t hempty e' hread =>
      obtain rfl := Except.error.inj h
      have hne : t ≠ [] := by simpa using hempty
      exact ⟨[], [], t, rfl, List.not_mem_nil, .nil, .atToken hne hread⟩
  | case3 => cases h
  | case4 read t _ rest hrest hread =>
      obtain rfl := Except.error.inj h
      obtain ⟨-, -, after, rfl, hsep⟩ := readToken_eq_ok_iff.mp hread
      have hne : rest ≠ [] := by simpa using hrest
      rcases hsep with ⟨-, hnil⟩ | ⟨c, hc, rfl⟩
      · exact absurd hnil hne
      · exact ⟨[], [], _, rfl, List.not_mem_nil, .nil, .behindEnd hc hne⟩
  | case5 read t _ token rest hread htoken ih =>
      obtain ⟨-, -, after, rfl, hsep⟩ := readToken_eq_ok_iff.mp hread
      rcases hsep with ⟨rfl, rfl⟩ | ⟨c, hc, rfl⟩
      · -- The text ends behind the token, so no other token has been tried.
        rw [readTokensAfter] at h
        obtain rfl := Except.error.inj h
        rw [List.append_nil]
        exact ⟨[], [], _, rfl, List.not_mem_nil, .nil, .unended htoken⟩
      · obtain ⟨tokens, x, y, rfl, hend, hx, hstops⟩ := ih h
        have hsize : (read.push token).size + tokens.length =
            read.size + (token :: tokens).length := by
          rw [Array.size_push, List.length_cons]
          omega
        refine ⟨token :: tokens, token.render ++ c :: x, y, by simp, ?_, .cons token hc hx, ?_⟩
        · simp [Ne.symm htoken, hend]
        · rwa [← hsize]

theorem readTokensAfter_of_error {read : Array Token} (hne : t ≠ [])
    (h : readToken sep read.size t = .error e) : readTokensAfter sep read t = .error e := by
  have hempty : ¬t.isEmpty = true := by simpa using hne
  rw [readTokensAfter, if_neg hempty]
  split
  · next hread => rw [Except.error.inj (hread.symm.trans h)]
  · next hread => cases hread.symm.trans h

/-- What cannot be read as a token cannot be read as the first token either. -/
theorem readTokens_of_readToken_eq_error (hne : t ≠ []) (h : readToken sep index t = .error e) :
    readTokens sep t = .error (e.withIndex 0) := by
  have hread : readToken sep 0 t = .error (e.withIndex 0) := by
    rw [readToken_withIndex sep index 0, h]
    rfl
  have hafter : readTokensAfter sep #[] t = .error (e.withIndex 0) :=
    readTokensAfter_of_error hne hread
  rw [readTokens, hafter]

/-- An error that tells the index of a token stands behind that many tokens, none of them the end
token, and it is the error of the text from there on. If only the end token is missing, the text
holds nothing but other tokens. -/
theorem readTokens_error_located (h : readTokens sep t = .error e) :
    (∀ index, e.index? = some index → ∃ tokens x y, t = x ++ y ∧ tokens.length = index ∧
      Token.endOfInput ∉ tokens ∧ Delimited sep tokens x ∧
      readTokens sep y = .error (e.withIndex 0)) ∧
    (e = .missingEnd → ∃ tokens x y, t = x ++ y ∧ Token.endOfInput ∉ tokens ∧
      Delimited sep tokens x ∧
      (y = [] ∨ ∃ token : Token, token ≠ .endOfInput ∧ y = token.render)) := by
  have hafter : readTokensAfter sep #[] t = .error e := by
    unfold readTokens at h
    split at h
    · cases h
    · next hafter =>
        obtain rfl := Except.error.inj h
        exact hafter
  obtain ⟨tokens, x, y, rfl, hend, hx, hstops⟩ := exists_stops hafter
  cases hstops with
  | atEnd =>
      refine ⟨fun index hindex => ?_, fun _ => ⟨tokens, x, [], rfl, hend, hx, .inl rfl⟩⟩
      cases hindex
  | unended htoken =>
      refine ⟨fun index hindex => ?_,
        fun _ => ⟨tokens, x, _, rfl, hend, hx, .inr ⟨_, htoken, rfl⟩⟩⟩
      cases hindex
  | atToken hne hread =>
      rcases about_of_readToken hread with habout | ⟨message, rfl⟩
      · refine ⟨fun index hindex => ?_, ?_⟩
        · have hlength : tokens.length = index := by
            simpa using habout.symm.trans hindex
          exact ⟨tokens, x, y, rfl, hlength, hend, hx, readTokens_of_readToken_eq_error hne hread⟩
        · rintro rfl
          cases habout
      · refine ⟨fun index hindex => ?_, fun hmissing => ?_⟩
        · cases hindex
        · cases hmissing
  | behindEnd =>
      refine ⟨fun index hindex => ?_, fun hmissing => ?_⟩
      · cases hindex
      · cases hmissing

end

/-- In front of the error stands a value with a parenthesis at the end of a line. -/
theorem readTokens_error_located_behind_value :
    readTokens .space "STRING_LITERAL(a)\nb) IDENT\nEND".toList =
        .error (.missingValue 1 .identifier) ∧
      ∃ tokens x y, "STRING_LITERAL(a)\nb) IDENT\nEND".toList = x ++ y ∧ tokens.length = 1 ∧
        Token.endOfInput ∉ tokens ∧ Delimited .space tokens x ∧
        readTokens .space y = .error (.missingValue 0 .identifier) := by
  have hvalue : readToken .space (#[] : Array Token).size
      ((Token.string "a)\nb".toList).render ++ " IDENT\nEND".toList) =
        .ok (.string "a)\nb".toList, "IDENT\nEND".toList) := by decide +kernel
  have hname : readToken .space 1 "IDENT\nEND".toList = .error (.missingValue 1 .identifier) := by
    decide +kernel
  have hafter : readTokensAfter .space #[] "STRING_LITERAL(a)\nb) IDENT\nEND".toList =
      .error (.missingValue 1 .identifier) := by
    refine (readTokensAfter_of_readToken hvalue).trans ?_
    rw [if_neg (by decide)]
    exact readTokensAfter_of_error (by decide) hname
  have hread : readTokens .space "STRING_LITERAL(a)\nb) IDENT\nEND".toList =
      .error (.missingValue 1 .identifier) := by
    rw [readTokens, hafter]
  exact ⟨hread, (readTokens_error_located hread).1 1 rfl⟩

end Rendering

end CoolLexer
