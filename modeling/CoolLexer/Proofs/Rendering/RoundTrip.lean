import CoolLexer.Proofs.Rendering.Reading

/-!
# Renderings and their readings

Rendering and reading are inverse to each other on the token lists that can be told from their
renderings, and every text that is read at all is a rendering of what is read.
-/

namespace CoolLexer

open Rendering

theorem joined_intercalate (sep : Separator) (last : Text) (tokens : List Token) :
    Joined sep last tokens ([sep.char].intercalate (tokens.map Token.render) ++ last) := by
  induction tokens with
  | nil => exact Joined.nil
  | cons token tokens ih =>
      cases tokens with
      | nil =>
          have h : Joined sep last [token] (token.render ++ last) := Joined.one token
          simpa using h
      | cons next tokens =>
          have h := Joined.cons token (.inl rfl) ih
          simpa using h

/-- The canonical rendering joins the tokens and ends with a newline. -/
theorem joined_renderTokens (sep : Separator) (tokens : List Token) :
    Joined sep ['\n'] tokens (renderTokens tokens sep) :=
  joined_intercalate sep ['\n'] tokens

theorem Joined.eq_intercalate {last t : Text} {tokens : List Token}
    (h : Joined .newline last tokens t) :
    t = ['\n'].intercalate (tokens.map Token.render) ++ last := by
  induction h with
  | nil => rfl
  | one token => simp
  | cons token hc _ ih =>
      obtain rfl : _ = '\n' := hc.elim id id
      simp [ih]

theorem Joined.exists_eq_append {sep : Separator} {last t : Text} {tokens init : List Token}
    {token : Token} (h : Joined sep last tokens t) (htokens : tokens = init ++ [token]) :
    ∃ front, t = front ++ token.render ++ last := by
  induction h generalizing init with
  | nil => simp at htokens
  | one token' =>
      cases init with
      | nil =>
          obtain rfl := (List.cons.inj htokens).1
          exact ⟨[], rfl⟩
      | cons _ init => simp at htokens
  | @cons token' c next tokens t _ _ ih =>
      cases init with
      | nil => simp at htokens
      | cons _ init =>
          obtain ⟨front, rfl⟩ := ih (List.cons.inj htokens).2
          exact ⟨token'.render ++ c :: front, by simp⟩

/-- A rendering with newlines is the canonical one, but for the newline at its end. -/
theorem Joined.renderTokens_eq {last t : Text} {tokens : List Token}
    (hlast : Parts .newline last []) (h : Joined .newline last tokens t) :
    (last = ['\n'] ∧ renderTokens tokens .newline = t) ∨
      (last = [] ∧ renderTokens tokens .newline = t ++ ['\n']) := by
  rw [h.eq_intercalate]
  rcases hlast with ⟨rfl, -⟩ | ⟨c, hc, rfl⟩
  · exact .inr ⟨rfl, by rw [List.append_nil]; rfl⟩
  · obtain rfl : c = '\n' := hc.elim id id
    exact .inl ⟨rfl, rfl⟩

/-- Tokens are read back from their rendering exactly when they are readable, also where newlines
stand for some of the separators and where the newline at the end is left out. -/
theorem readTokens_renderTokens_iff (tokens : List Token) (sep : Separator) :
    (readTokens sep (renderTokens tokens sep) = .ok tokens ↔ Readable sep tokens) ∧
      ∀ t, Joined sep [] tokens t ∨ Joined sep ['\n'] tokens t →
        (readTokens sep t = .ok tokens ↔ Readable sep tokens) := by
  have hread : ∀ t, Joined sep [] tokens t ∨ Joined sep ['\n'] tokens t →
      (readTokens sep t = .ok tokens ↔ Readable sep tokens) := by
    intro t ht
    rw [readTokens_eq_ok_iff]
    constructor
    · exact And.left
    · intro hreadable
      rcases ht with ht | ht
      · exact ⟨hreadable, [], .inl ⟨rfl, rfl⟩, ht⟩
      · exact ⟨hreadable, ['\n'], .inr ⟨'\n', .inr rfl, rfl⟩, ht⟩
  exact ⟨hread _ (.inr (joined_renderTokens sep tokens)), hread⟩

/-- The value in front seems to end early, but no token starts where it does. -/
theorem readTokens_mixed_separators :
    Joined .space [] [.string ") END".toList, .identifier ['x'], .endOfInput]
        "STRING_LITERAL() END)\nIDENT(x) END".toList ∧
      readTokens .space "STRING_LITERAL() END)\nIDENT(x) END".toList =
        .ok [.string ") END".toList, .identifier ['x'], .endOfInput] := by
  have hjoined : Joined .space [] [.string ") END".toList, .identifier ['x'], .endOfInput]
      "STRING_LITERAL() END)\nIDENT(x) END".toList :=
    Joined.cons (c := '\n') (.string ") END".toList) (by decide)
      (Joined.cons (c := ' ') (.identifier ['x']) (by decide) (Joined.one .endOfInput))
  have hreadable : Readable .space [.string ") END".toList, .identifier ['x'], .endOfInput] := by
    decide
  exact ⟨hjoined, ((readTokens_renderTokens_iff _ .space).2 _ (.inl hjoined)).mpr hreadable⟩

/-- What is read ends with the only end of input in it, and the text joins its renderings. With
newlines, rendering it again gives the text back, but for a missing newline at the end. -/
theorem renderTokens_of_readTokens_eq_ok {sep : Separator} {t : Text} {tokens : List Token}
    (h : readTokens sep t = .ok tokens) :
    (∃ init, tokens = init ++ [.endOfInput] ∧ Token.endOfInput ∉ init) ∧
      (∃ last, (last = [] ∨ ∃ c, sep.Allows c ∧ last = [c]) ∧ Joined sep last tokens t) ∧
      (sep = .newline →
        (renderTokens tokens .newline = t ∨ renderTokens tokens .newline = t ++ ['\n']) ∧
          ∀ rendered, t = renderTokens rendered .newline → renderTokens tokens .newline = t) := by
  obtain ⟨hreadable, last, hlast, hjoined⟩ := readTokens_eq_ok_iff.mp h
  refine ⟨hreadable.ended, ⟨last, ?_, hjoined⟩, ?_⟩
  · rcases hlast with ⟨rfl, -⟩ | ⟨c, hc, rfl⟩
    · exact .inl rfl
    · exact .inr ⟨c, hc, rfl⟩
  · rintro rfl
    rcases hjoined.renderTokens_eq hlast with ⟨rfl, heq⟩ | ⟨rfl, heq⟩
    · exact ⟨.inl heq, fun _ _ => heq⟩
    · refine ⟨.inr heq, ?_⟩
      intro rendered ht
      -- Without a newline at its end the text ends with the name of the end of input.
      obtain ⟨init, htokens, -⟩ := hreadable.ended
      obtain ⟨front, hfront⟩ := hjoined.exists_eq_append htokens
      have hend : Token.endOfInput.render = ['E', 'N'] ++ ['D'] := by decide
      rw [hend, List.append_nil, ← List.append_assoc] at hfront
      cases (List.append_inj' (hfront.symm.trans ht) rfl).2

/-- A string literal that is read as two. -/
theorem renderTokens_of_split_literal :
    readTokens .newline
        (renderTokens [.string "a)\nSTRING_LITERAL(b".toList, .endOfInput] .newline) =
        .ok [.string ['a'], .string ['b'], .endOfInput] ∧
      renderTokens [.string ['a'], .string ['b'], .endOfInput] .newline =
        renderTokens [.string "a)\nSTRING_LITERAL(b".toList, .endOfInput] .newline := by
  have hread : readTokens .newline
      (renderTokens [.string "a)\nSTRING_LITERAL(b".toList, .endOfInput] .newline) =
        .ok [.string ['a'], .string ['b'], .endOfInput] := by
    apply readTokens_eq_ok_iff.mpr
    refine ⟨by decide, ['\n'], .inr ⟨'\n', .inl rfl, rfl⟩, ?_⟩
    exact Joined.cons (c := '\n') (.string ['a']) (by decide)
      (Joined.cons (c := '\n') (.string ['b']) (by decide) (Joined.one .endOfInput))
  exact ⟨hread, ((renderTokens_of_readTokens_eq_ok hread).2.2 rfl).2 _ rfl⟩

end CoolLexer
