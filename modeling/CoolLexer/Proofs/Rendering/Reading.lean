import CoolLexer.Proofs.Rendering.Value
import CoolLexer.Proofs.Token.Parts

/-!
# What the reader of renderings accepts

The reader accepts the renderings of the token lists that it can tell apart, with any separators
that it allows: nothing is skipped, and no other text is read.
-/

namespace CoolLexer

/-- The renderings of tokens one after another, each but the last with a separator behind it, and
`last` at the end. -/
inductive Joined (sep : Separator) (last : Text) : List Token → Text → Prop
  | nil : Joined sep last [] last
  | one (token : Token) : Joined sep last [token] (token.render ++ last)
  | cons (token : Token) {c : Char} {next : Token} {tokens : List Token} {t : Text} :
      sep.Allows c → Joined sep last (next :: tokens) t →
      Joined sep last (token :: next :: tokens) (token.render ++ c :: t)

/-- The token lists that can be told from their renderings. -/
structure Readable (sep : Separator) (tokens : List Token) : Prop where
  ended : ∃ init, tokens = init ++ [.endOfInput] ∧ Token.endOfInput ∉ init
  sound : ∀ token ∈ tokens, token.SoundValue
  whole : ∀ token ∈ tokens, ∀ value, token.value? = some value → ¬CutShort sep value

namespace Readable

variable {sep : Separator}

theorem ne_nil {tokens : List Token} (h : Readable sep tokens) : tokens ≠ [] := by
  obtain ⟨init, rfl, -⟩ := h.ended
  exact List.append_ne_nil_of_right_ne_nil init (List.cons_ne_nil _ _)

theorem eq_end_of_singleton {token : Token} (h : Readable sep [token]) : token = .endOfInput := by
  obtain ⟨init, hinit, -⟩ := h.ended
  cases init with
  | nil => exact (List.cons.inj hinit).1
  | cons first init => simp at hinit

theorem ne_end_of_cons {token next : Token} {tokens : List Token}
    (h : Readable sep (token :: next :: tokens)) : token ≠ .endOfInput := by
  rintro rfl
  obtain ⟨init, hinit, hend⟩ := h.ended
  cases init with
  | nil => cases hinit
  | cons first init => exact hend ((List.cons.inj hinit).1 ▸ List.mem_cons_self)

end Readable

instance (sep : Separator) (tokens : List Token) : Decidable (Readable sep tokens) :=
  decidable_of_iff
    ((tokens.getLast? = some .endOfInput ∧ Token.endOfInput ∉ tokens.dropLast) ∧
      (∀ token ∈ tokens, token.SoundValue) ∧
      ∀ token ∈ tokens, ∀ value ∈ token.value?, ¬CutShort sep value)
    (by
      constructor
      · intro h
        obtain ⟨⟨hlast, hend⟩, hsound, hwhole⟩ := h
        obtain ⟨init, rfl⟩ := List.getLast?_eq_some_iff.mp hlast
        exact ⟨⟨init, rfl, by simpa using hend⟩, hsound, hwhole⟩
      · intro h
        obtain ⟨⟨init, rfl, hend⟩, hsound, hwhole⟩ := h
        exact ⟨⟨by simp, by simpa using hend⟩, hsound, hwhole⟩)

namespace Rendering

/-- A separator stands between the token in front and `rest`, or all ends there. -/
def Parts (sep : Separator) (t rest : Text) : Prop :=
  (t = [] ∧ rest = []) ∨ ∃ c, sep.Allows c ∧ t = c :: rest

private theorem readSeparator_eq_ok_iff {sep : Separator} {index : Nat} {t rest : Text} :
    readSeparator sep index t = .ok rest ↔ Parts sep t rest := by
  cases t with
  | nil => simp [readSeparator, Parts, eq_comm]
  | cons c t =>
      by_cases hc : sep.accepts c = true
      · simp [readSeparator, Parts, hc, accepts_iff.mp hc]
      · have := mt accepts_iff.mpr hc
        simp [readSeparator, Parts, hc, this]

private theorem Parts.followsName {sep : Separator} {t rest : Text} (h : Parts sep t rest) :
    FollowsName sep t := by
  rcases h with ⟨rfl, -⟩ | ⟨c, hc, rfl⟩
  · simp [FollowsName]
  · simp [FollowsName, hc]

private theorem Parts.endsValue_iff {sep : Separator} {t rest : Text} (h : Parts sep t rest) :
    endsValue sep t = true ↔ rest = [] ∨ startsWithToken sep rest = true := by
  rcases h with ⟨rfl, rfl⟩ | ⟨c, hc, rfl⟩
  · simp [endsValue]
  · simp [endsValue, accepts_iff.mpr hc]

/-- A reader in front of `t` takes the whole value of the token, if the token has one. -/
def TakesValue (sep : Separator) (token : Token) (rest : Text) : Prop :=
  ∀ value, token.value? = some value →
    ¬CutShort sep value ∧ (rest = [] ∨ startsWithToken sep rest = true)

private theorem readValue_eq_ok_iff {sep : Separator} {index : Nat} {kind : Kind} {t rest : Text}
    {value : Option Text} :
    readValue sep index kind t = .ok (value, rest) ↔
      (value = none ∧ rest = t ∧ t.head? ≠ some '(') ∨
      ∃ v, value = some v ∧ kind.hasValue = true ∧ t = '(' :: (v ++ ')' :: rest) ∧
        endsValue sep rest = true ∧ ¬CutShort sep v := by
  unfold readValue
  split
  · next body =>
      cases hvalue : kind.hasValue with
      | false => simp
      | true =>
          cases hclose : closeValue? sep [] body with
          | none =>
              simp only [if_true, reduceCtorEq, false_iff, List.head?_cons, ne_eq, not_true,
                and_false, false_or]
              intro h
              obtain ⟨v, -, -, hbody, hends, hwhole⟩ := h
              have := closeValue?_iff.mpr ⟨(List.cons.inj hbody).2, hends, hwhole⟩
              cases hclose.symm.trans this
          | some found =>
              obtain ⟨v, after⟩ := found
              obtain ⟨hbody, hends, hwhole⟩ := closeValue?_iff.mp hclose
              constructor
              · intro h
                obtain ⟨rfl, rfl⟩ := h
                exact .inr ⟨v, rfl, rfl, by rw [hbody], hends, hwhole⟩
              · intro h
                rcases h with ⟨-, -, hhead⟩ | ⟨v', rfl, -, hbody', hends', hwhole'⟩
                · exact absurd rfl hhead
                · have := closeValue?_iff.mpr ⟨(List.cons.inj hbody').2, hends', hwhole'⟩
                  obtain ⟨rfl, rfl⟩ := Prod.mk.inj (Option.some.inj (hclose.symm.trans this))
                  rfl
  · next hopen =>
      have hhead : t.head? ≠ some '(' := by
        intro h
        obtain ⟨body, rfl⟩ := List.head?_eq_some_iff.mp h
        exact hopen body rfl
      constructor
      · intro h
        obtain ⟨rfl, rfl⟩ := h
        exact .inl ⟨rfl, rfl, hhead⟩
      · intro h
        rcases h with ⟨rfl, rfl, -⟩ | ⟨v, -, -, rfl, -⟩
        · rfl
        · exact absurd rfl hhead

private theorem render_of_none {token : Token} (h : token.value? = none) :
    token.render = token.kind.name := by
  rw [Token.render, h]

private theorem render_of_some {token : Token} {value : Text} (h : token.value? = some value) :
    token.render = token.kind.name ++ '(' :: (value ++ [')']) := by
  rw [Token.render, h]
  simp

private theorem readToken_sound {sep : Separator} {index : Nat} {t rest : Text} {token : Token}
    (h : readToken sep index t = .ok (token, rest)) :
    token.SoundValue ∧ TakesValue sep token rest ∧
      ∃ after, t = token.render ++ after ∧ Parts sep after rest := by
  unfold readToken at h
  cases hname : Kind.ofName? (t.takeWhile isNameChar) with
  | none => simp [hname] at h
  | some kind =>
  cases hvalue : readValue sep index kind (t.dropWhile isNameChar) with
  | error e => simp [hname, hvalue] at h
  | ok found =>
  obtain ⟨value, after⟩ := found
  cases htoken : Token.ofParts kind value with
  | error e => simp [hname, hvalue, htoken] at h
  | ok token' =>
  cases hsep : readSeparator sep index after with
  | error e => simp [hname, hvalue, htoken, hsep] at h
  | ok rest' =>
  simp only [hname, hvalue, htoken, hsep] at h
  obtain ⟨rfl, rfl⟩ := Prod.mk.inj (Except.ok.inj h)
  obtain ⟨rfl, hparts, hsound⟩ := Token.of_ofParts_eq_ok htoken
  have hsep := readSeparator_eq_ok_iff.mp hsep
  have ht := List.takeWhile_append_dropWhile (p := isNameChar) (l := t)
  rw [ofName?_eq_some_iff.mp hname] at ht
  rcases readValue_eq_ok_iff.mp hvalue with ⟨rfl, rfl, -⟩ | ⟨v, rfl, -, hv, hends, hwhole⟩
  · refine ⟨hsound, ?_, _, ?_, hsep⟩
    · intro v hv
      cases hparts.symm.trans hv
    · rw [render_of_none hparts, ht]
  · refine ⟨hsound, ?_, after, ?_, hsep⟩
    · intro v' hv'
      obtain rfl := Option.some.inj (hparts.symm.trans hv')
      exact ⟨hwhole, hsep.endsValue_iff.mp hends⟩
    · rw [render_of_some hparts, ← ht, hv]
      simp

private theorem readToken_complete {sep : Separator} (index : Nat) {rest after : Text}
    {token : Token} (hsound : token.SoundValue) (htakes : TakesValue sep token rest)
    (hsep : Parts sep after rest) :
    readToken sep index (token.render ++ after) = .ok (token, rest) := by
  have hparts := Token.ofParts_kind_value? hsound
  obtain ⟨value, tail, hvalue, hrender, hfollows, hread⟩ : ∃ value tail, token.value? = value ∧
      token.render ++ after = token.kind.name ++ tail ∧ FollowsName sep tail ∧
      readValue sep index token.kind tail = .ok (value, after) := by
    cases hv : token.value? with
    | none =>
        refine ⟨none, after, rfl, by rw [render_of_none hv], hsep.followsName, ?_⟩
        apply readValue_eq_ok_iff.mpr
        refine .inl ⟨rfl, rfl, ?_⟩
        rcases hsep with ⟨rfl, -⟩ | ⟨c, hc, rfl⟩
        · simp
        · have hopen : ¬sep.Allows '(' := by cases sep <;> decide
          intro h
          obtain rfl := Option.some.inj h
          exact hopen hc
    | some v =>
        obtain ⟨hwhole, hrest⟩ := htakes v hv
        have hkind : token.kind.hasValue = true := by rw [Token.hasValue_kind, hv]; rfl
        refine ⟨some v, '(' :: (v ++ ')' :: after), rfl, ?_, ?_, ?_⟩
        · rw [render_of_some hv]
          simp
        · intro c hc
          exact .inl (Option.some.inj hc).symm
        · exact readValue_eq_ok_iff.mpr
            (.inr ⟨v, rfl, hkind, rfl, hsep.endsValue_iff.mpr hrest, hwhole⟩)
  obtain ⟨htake, hdrop⟩ := name_append token.kind hfollows
  rw [hvalue] at hparts
  unfold readToken
  rw [hrender, htake, hdrop, Kind.ofName?_name]
  simp only [hread, hparts, readSeparator_eq_ok_iff.mpr hsep]

/-- A token is read where its rendering stands with a separator behind it. -/
theorem readToken_eq_ok_iff {sep : Separator} {index : Nat} {t rest : Text} {token : Token} :
    readToken sep index t = .ok (token, rest) ↔
      token.SoundValue ∧ TakesValue sep token rest ∧
        ∃ after, t = token.render ++ after ∧ Parts sep after rest := by
  constructor
  · exact readToken_sound
  · intro h
    obtain ⟨hsound, htakes, after, rfl, hsep⟩ := h
    exact readToken_complete index hsound htakes hsep

private theorem startsWithToken_render {sep : Separator} (token : Token) {after : Text}
    (h : FollowsName sep after) : startsWithToken sep (token.render ++ after) = true := by
  apply startsWithToken_iff.mpr
  cases hv : token.value? with
  | none => exact ⟨token.kind, after, by rw [render_of_none hv], h⟩
  | some v =>
      refine ⟨token.kind, '(' :: (v ++ ')' :: after), ?_, ?_⟩
      · rw [render_of_some hv]
        simp
      · intro c hc
        exact .inl (Option.some.inj hc).symm

private theorem startsWithToken_joined {sep : Separator} {last t : Text} {next : Token}
    {tokens : List Token} (hlast : Parts sep last []) (h : Joined sep last (next :: tokens) t) :
    startsWithToken sep t = true := by
  cases h with
  | one => exact startsWithToken_render next hlast.followsName
  | cons _ hc _ =>
      apply startsWithToken_render
      intro d hd
      exact .inr (Option.some.inj hd ▸ hc)

private theorem render_append_ne_nil (token : Token) (after : Text) :
    token.render ++ after ≠ [] := by
  intro h
  have hrender := (List.append_eq_nil_iff.mp h).1
  cases hv : token.value? with
  | none => exact name_ne_nil token.kind (by rw [← render_of_none hv, hrender])
  | some v =>
      rw [render_of_some hv] at hrender
      exact name_ne_nil token.kind (List.append_eq_nil_iff.mp hrender).1

private theorem readable_end (sep : Separator) : Readable sep [.endOfInput] where
  ended := ⟨[], rfl, List.not_mem_nil⟩
  sound := by simp [Token.SoundValue]
  whole := by simp [Token.value?]

private theorem readable_cons_iff {sep : Separator} {token : Token} {tokens : List Token}
    (htoken : token ≠ .endOfInput) :
    Readable sep (token :: tokens) ↔
      token.SoundValue ∧ (∀ value, token.value? = some value → ¬CutShort sep value) ∧
        Readable sep tokens := by
  constructor
  · intro h
    obtain ⟨⟨init, hinit, hend⟩, hsound, hwhole⟩ := h
    cases init with
    | nil => exact absurd (List.cons.inj hinit).1 htoken
    | cons first init =>
        obtain ⟨rfl, rfl⟩ := List.cons.inj hinit
        have hend' := mt (List.mem_cons_of_mem token) hend
        exact ⟨hsound _ List.mem_cons_self, hwhole _ List.mem_cons_self, ⟨init, rfl, hend'⟩,
          fun t ht => hsound t (List.mem_cons_of_mem _ ht),
          fun t ht => hwhole t (List.mem_cons_of_mem _ ht)⟩
  · intro h
    obtain ⟨hsound, hwhole, ⟨init, rfl, hend⟩, hsounds, hwholes⟩ := h
    refine ⟨⟨token :: init, rfl, ?_⟩, ?_, ?_⟩
    · simp [htoken.symm, hend]
    · exact List.forall_mem_cons.mpr ⟨hsound, hsounds⟩
    · exact List.forall_mem_cons.mpr ⟨hwhole, hwholes⟩

private theorem readTokensAfter_sound {sep : Separator} {read all : Array Token} {t : Text}
    (h : readTokensAfter sep read t = .ok all) :
    ∃ tokens, all.toList = read.toList ++ tokens ∧ Readable sep tokens ∧
      ∃ last, Parts sep last [] ∧ Joined sep last tokens t := by
  fun_induction readTokensAfter sep read t with
  | case1 => cases h
  | case2 => cases h
  | case3 read t _ rest hrest hread =>
      obtain ⟨-, -, after, rfl, hsep⟩ := readToken_eq_ok_iff.mp hread
      obtain rfl := List.isEmpty_iff.mp hrest
      obtain rfl := Except.ok.inj h
      exact ⟨[.endOfInput], by simp, readable_end sep, after, hsep, Joined.one _⟩
  | case4 => cases h
  | case5 read t _ token rest hread htoken ih =>
      obtain ⟨hsound, htakes, after, rfl, hsep⟩ := readToken_eq_ok_iff.mp hread
      obtain ⟨tokens, hall, hreadable, last, hlast, hjoined⟩ := ih h
      have hcons : Readable sep (token :: tokens) :=
        (readable_cons_iff htoken).mpr ⟨hsound, fun v hv => (htakes v hv).1, hreadable⟩
      refine ⟨token :: tokens, by simp [hall], hcons, last, hlast, ?_⟩
      -- The token is not the last, so text is left and a separator stands in front of it.
      cases tokens with
      | nil => cases hreadable.ne_nil rfl
      | cons next tokens =>
          rcases hsep with ⟨rfl, rfl⟩ | ⟨c, hc, rfl⟩
          · cases startsWithToken_joined hlast hjoined
          · exact Joined.cons token hc hjoined

theorem readTokensAfter_of_readToken {sep : Separator} {read : Array Token} {token : Token}
    {after rest : Text} (h : readToken sep read.size (token.render ++ after) = .ok (token, rest)) :
    readTokensAfter sep read (token.render ++ after) =
      if token = .endOfInput then
        if rest.isEmpty then .ok (read.push token) else .error .textAfterEnd
      else readTokensAfter sep (read.push token) rest := by
  have hempty : (token.render ++ after).isEmpty = false :=
    List.isEmpty_eq_false_iff.mpr (render_append_ne_nil token after)
  rw [readTokensAfter, hempty]
  split
  · contradiction
  · split
    · next hread => cases h.symm.trans hread
    · next hread =>
        obtain ⟨rfl, rfl⟩ := Prod.mk.inj (Except.ok.inj (h.symm.trans hread))
        rfl

private theorem readTokensAfter_complete {sep : Separator} {last : Text}
    (hlast : Parts sep last []) {tokens : List Token} {t : Text} (h : Joined sep last tokens t)
    (read : Array Token) (hreadable : Readable sep tokens) :
    readTokensAfter sep read t = .ok (read ++ tokens.toArray) := by
  induction h generalizing read with
  | nil => cases hreadable.ne_nil rfl
  | one token =>
      obtain rfl := hreadable.eq_end_of_singleton
      have hread : readToken sep read.size (Token.endOfInput.render ++ last) =
          .ok (.endOfInput, []) :=
        readToken_complete _ trivial (fun v hv => by cases hv) hlast
      rw [readTokensAfter_of_readToken hread]
      simp
  | @cons token c next tokens t hc hjoined ih =>
      have htoken := hreadable.ne_end_of_cons
      obtain ⟨hsound, hwhole, htail⟩ := (readable_cons_iff htoken).mp hreadable
      have hnext := startsWithToken_joined hlast hjoined
      have hread : readToken sep read.size (token.render ++ c :: t) = .ok (token, t) :=
        readToken_complete _ hsound (fun v hv => ⟨hwhole v hv, .inr hnext⟩) (.inr ⟨c, hc, rfl⟩)
      rw [readTokensAfter_of_readToken hread, if_neg htoken, ih _ htail]
      simp

/-- Reading accepts the joined renderings of readable tokens, and nothing else. -/
theorem readTokens_eq_ok_iff {sep : Separator} {t : Text} {tokens : List Token} :
    readTokens sep t = .ok tokens ↔
      Readable sep tokens ∧ ∃ last, Parts sep last [] ∧ Joined sep last tokens t := by
  constructor
  · intro h
    unfold readTokens at h
    split at h
    · next all hall =>
        obtain ⟨tokens', heq, hreadable, hjoined⟩ := readTokensAfter_sound hall
        obtain rfl : tokens' = tokens := by
          rw [← Except.ok.inj h, heq, List.nil_append]
        exact ⟨hreadable, hjoined⟩
    · cases h
  · intro h
    obtain ⟨hreadable, last, hlast, hjoined⟩ := h
    rw [readTokens, readTokensAfter_complete hlast hjoined #[] hreadable]
    simp

end Rendering

end CoolLexer
