import CoolLexer.Proofs.Lexer.Report

/-!
# Pulling tokens one at a time

Three calls read on by one token. However they are mixed, their tokens come in the order of the
scanned stream, and then the end token comes for ever. Only `next?` stops, after the first end token
that it has returned itself.
-/

namespace CoolLexer

/-- The calls that read on by one token. -/
inductive Pull where
  | token
  | located
  | next

/-- What such a call returns. -/
inductive Pulled where
  | token (token : Token)
  | located (located : LocatedToken)
  | next (found : Option LocatedToken)

namespace Pulled

/-- The calls that have returned a token. -/
def answered (pulled : List Pulled) : List Pulled :=
  pulled.filter fun
    | next none => false
    | _ => true

/-- The call returns `expected`, with its span if the call returns spans. -/
def Returns : Pulled → LocatedToken → Prop
  | token tok, expected => tok = expected.token
  | located found, expected | next (some found), expected => found = expected
  | next none, _ => False

/-- The call is `next?`, and it returns the end token. -/
def IsNextEnd (pulled : Pulled) : Prop :=
  ∃ found, pulled = next (some found) ∧ found.token = .endOfInput

end Pulled

/-- The token at `i` in the stream with its last token repeated for ever. -/
def TokenStream.repeating? (stream : TokenStream) (i : Nat) : Option LocatedToken :=
  stream.get? (min i (stream.size - 1))

namespace Lexer

def pull (lexer : Lexer) : Pull → Pulled × Lexer
  | .token => (.token lexer.nextToken.1, lexer.nextToken.2)
  | .located => (.located lexer.nextLocated.1, lexer.nextLocated.2)
  | .next => (.next lexer.next?.1, lexer.next?.2)

section
variable {α β : Type} (call : Lexer → α → β × Lexer)

/-- Makes calls one after another: what they return, and the lexer after them. -/
def each (lexer : Lexer) : List α → List β × Lexer
  | [] => ([], lexer)
  | first :: rest =>
      let called := call lexer first
      let others := each called.2 rest
      (called.1 :: others.1, others.2)

/-- What every call keeps, a sequence of calls keeps. The invariant may speak of everything that has
been returned so far. -/
theorem each_induction {Inv : List β → Lexer → Prop}
    (step : ∀ returned lexer a, Inv returned lexer →
      Inv (returned ++ [(call lexer a).1]) (call lexer a).2)
    {returned : List β} {lexer : Lexer} (h : Inv returned lexer) (calls : List α) :
    Inv (returned ++ (each call lexer calls).1) (each call lexer calls).2 := by
  induction calls generalizing returned lexer with
  | nil =>
      rw [each, List.append_nil]
      exact h
  | cons first rest ih =>
      have hrest := ih (step returned lexer first h)
      rw [List.append_assoc] at hrest
      exact hrest

end

open Pulled

/-- What has been pulled from a lexer and what it still gives are those of `stream`. The log of the
lexer goes on from `log`. -/
structure InStep (stream : TokenStream) (log : DiagnosticLog) (pulled : List Pulled)
    (lexer : Lexer) : Prop where
  returned : ∀ i answer, (answered pulled)[i]? = some answer →
    ∃ located, stream.repeating? i = some located ∧ answer.Returns located
  stops : lexer.next?.1 = none ↔ ∃ earlier ∈ pulled, earlier.IsNextEnd
  rests : lexer.next?.1 = none → lexer.next?.2 = lexer
  reported : lexer.log.toList = log.toList ++
    ((List.range (answered pulled).length).filterMap stream.repeating?).filterMap
      LocatedToken.diagnostic?
  remaining : lexer.tokenize.1.toList =
    stream.toList.drop (min (answered pulled).length (stream.size - 1))

private theorem finished_nextLocated (lexer : Lexer) (h : lexer.HaltsAtEnd) :
    lexer.nextLocated.2.finished = lexer.finished := by
  rcases nextLocated_cases lexer h with ⟨-, hnext⟩ | ⟨tok, n, -, hnext⟩
  · rw [hnext]
    rfl
  · rw [hnext]
    exact (reportToken_keeps (lexer.toNextToken.skip n) tok).2.2.2

private theorem upcoming_ne_nil (lexer : Lexer) (h : lexer.HaltsAtEnd) : lexer.upcoming ≠ [] := by
  rw [upcoming_eq lexer h]
  exact List.cons_ne_nil _ _

/-- At the end of the source the end token is returned again, at the same span. -/
private theorem upcoming_of_end (lexer : Lexer) (h : lexer.HaltsAtEnd)
    (hend : lexer.nextLocated.1.token = .endOfInput) :
    lexer.nextLocated.2.upcoming = [lexer.nextLocated.1] := by
  rcases nextLocated_cases lexer h with ⟨hfirst, hnext⟩ | ⟨tok, n, hfirst, hnext⟩
  · rw [hnext]
    exact locate_endOfText _ _ hfirst
  · rw [hnext] at hend
    exact absurd hend (Lexeme.first_eq_token hfirst).2.2

/-- Reading a token leaves the others ahead, but the last one is never used up. -/
private theorem upcoming_nextLocated (lexer : Lexer) (h : lexer.HaltsAtEnd) :
    lexer.nextLocated.2.upcoming = lexer.upcoming.drop (min 1 (lexer.upcoming.length - 1)) := by
  have hahead := upcoming_eq lexer h
  by_cases hend : lexer.nextLocated.1.token = .endOfInput
  · rw [if_pos hend] at hahead
    rw [hahead, upcoming_of_end lexer h hend]
    rfl
  · rw [if_neg hend] at hahead
    have hmore := List.length_pos_iff.mpr (upcoming_ne_nil _ (haltsAtEnd_nextLocated lexer h))
    have hone : min 1 (lexer.upcoming.length - 1) = 1 := by
      rw [hahead, List.length_cons]
      omega
    rw [hone, hahead]
    rfl

/-- What a pull does: `next?` after its end token does nothing, and every other pull is a call of
`nextLocated`. -/
theorem pull_cases (lexer : Lexer) (h : lexer.HaltsAtEnd) (call : Pull) :
    (lexer.finished = true ∧ lexer.pull call = (.next none, lexer)) ∨
    ∃ answer finished, lexer.pull call = (answer, { lexer.nextLocated.2 with finished }) ∧
      answer.Returns lexer.nextLocated.1 ∧
      (finished = true ↔ lexer.finished = true ∨ answer.IsNextEnd) := by
  have hkeeps := finished_nextLocated lexer h
  cases call with
  | token =>
      refine .inr ⟨.token lexer.nextToken.1, lexer.nextLocated.2.finished, rfl, rfl, ?_⟩
      simp [hkeeps, IsNextEnd]
  | located =>
      refine .inr ⟨.located lexer.nextLocated.1, lexer.nextLocated.2.finished, rfl, rfl, ?_⟩
      simp [hkeeps, IsNextEnd]
  | next =>
      cases hfinished : lexer.finished with
      | true =>
          refine .inl ⟨rfl, ?_⟩
          rw [pull, next?, if_pos hfinished]
      | false =>
          refine .inr ⟨.next (some lexer.nextLocated.1), lexer.nextLocated.1.token.isEnd, ?_, rfl,
            ?_⟩
          · rw [pull, next?, hfinished]
            rfl
          · cases htok : lexer.nextLocated.1.token <;> simp [IsNextEnd, Token.isEnd, htok]

private theorem next?_eq_none_iff (lexer : Lexer) :
    lexer.next?.1 = none ↔ lexer.finished = true := by
  cases hfinished : lexer.finished <;> simp [next?, hfinished]

/-- The state of a lexer that is in step with `stream`. -/
private structure Tracks (stream : TokenStream) (log : DiagnosticLog) (pulled : List Pulled)
    (lexer : Lexer) : Prop where
  halts : lexer.HaltsAtEnd
  ahead : lexer.upcoming = stream.toList.drop (min (answered pulled).length (stream.size - 1))
  finished : lexer.finished = true ↔ ∃ earlier ∈ pulled, earlier.IsNextEnd
  returned : ∀ i answer, (answered pulled)[i]? = some answer →
    ∃ located, stream.repeating? i = some located ∧ answer.Returns located
  reported : lexer.log.toList = log.toList ++
    ((List.range (answered pulled).length).filterMap stream.repeating?).filterMap
      LocatedToken.diagnostic?

namespace Tracks

variable {stream : TokenStream} {log : DiagnosticLog} {pulled : List Pulled} {lexer : Lexer}

private theorem repeating?_eq (h : Tracks stream log pulled lexer) :
    stream.repeating? (answered pulled).length = some lexer.nextLocated.1 := by
  have hhead : lexer.upcoming.head? = some lexer.nextLocated.1 := by
    rw [upcoming_eq lexer h.halts]
    rfl
  rw [h.ahead, List.head?_drop] at hhead
  rw [TokenStream.repeating?, TokenStream.get?, ← Array.getElem?_toList]
  exact hhead

private theorem unanswered (h : Tracks stream log pulled lexer) :
    Tracks stream log (pulled ++ [Pulled.next none]) lexer := by
  have hanswered : answered (pulled ++ [Pulled.next none]) = answered pulled := by simp [answered]
  have hends : (∃ earlier ∈ pulled ++ [Pulled.next none], earlier.IsNextEnd) ↔
      ∃ earlier ∈ pulled, earlier.IsNextEnd := by simp [IsNextEnd]
  exact {
    halts := h.halts
    ahead := hanswered ▸ h.ahead
    finished := h.finished.trans hends.symm
    returned := hanswered ▸ h.returned
    reported := hanswered ▸ h.reported }

private theorem answer (h : Tracks stream log pulled lexer) {answer : Pulled} {finished : Bool}
    (hreturns : answer.Returns lexer.nextLocated.1)
    (hfinished : finished = true ↔ lexer.finished = true ∨ answer.IsNextEnd) :
    Tracks stream log (pulled ++ [answer]) { lexer.nextLocated.2 with finished } := by
  have hnext := h.repeating?_eq
  have hanswered : answered (pulled ++ [answer]) = answered pulled ++ [answer] := by
    cases answer with
    | next found => cases found <;> simp_all [answered, Returns]
    | _ => simp [answered]
  have hlength : (answered (pulled ++ [answer])).length = (answered pulled).length + 1 := by
    rw [hanswered, List.length_append, List.length_singleton]
  exact {
    halts := haltsAtEnd_nextLocated lexer h.halts
    ahead := by
      have hahead : lexer.upcoming.length =
          stream.size - min (answered pulled).length (stream.size - 1) := by
        rw [h.ahead, List.length_drop]
        rfl
      have hrest := upcoming_nextLocated lexer h.halts
      rw [hahead, h.ahead, List.drop_drop] at hrest
      rw [hlength]
      refine hrest.trans (congrArg (stream.toList.drop ·) ?_)
      omega
    finished := by
      rw [hfinished, h.finished]
      simp [or_and_right, exists_or]
    returned := by
      intro i found hi
      rw [hanswered] at hi
      by_cases hold : i < (answered pulled).length
      · rw [List.getElem?_append_left hold] at hi
        exact h.returned i found hi
      · have hlt := (List.getElem?_eq_some_iff.mp hi).1
        rw [← hanswered, hlength] at hlt
        obtain rfl : i = (answered pulled).length := by omega
        rw [List.getElem?_concat_length] at hi
        obtain rfl := Option.some.inj hi
        exact ⟨lexer.nextLocated.1, hnext, hreturns⟩
    reported := by
      have hlog := log_nextLocated lexer h.halts
      have hadded : [lexer.nextLocated.1].filterMap LocatedToken.diagnostic? =
          lexer.nextLocated.1.diagnostic?.toList := by
        rw [List.filterMap_eq_flatMap_toList, List.flatMap_singleton]
      rw [h.reported, List.append_assoc, ← hadded] at hlog
      rw [hlength, List.range_succ, List.filterMap_append, List.filterMap_append]
      simpa [hnext] using hlog }

private theorem pull (h : Tracks stream log pulled lexer) (call : Pull) :
    Tracks stream log (pulled ++ [(lexer.pull call).1]) (lexer.pull call).2 := by
  rcases pull_cases lexer h.halts call with ⟨-, hpull⟩ | ⟨answer, finished, hpull, hreturns, hends⟩
  · rw [hpull]
    exact h.unanswered
  · rw [hpull]
    exact h.answer hreturns hends

private theorem inStep (h : Tracks stream log pulled lexer) : InStep stream log pulled lexer where
  returned := h.returned
  stops := (next?_eq_none_iff lexer).trans h.finished
  rests := by
    intro hnone
    rw [next?, if_pos ((next?_eq_none_iff lexer).mp hnone)]
  reported := h.reported
  remaining := by
    have hrest := toList_tokenizeAfter {} lexer h.halts
    rw [TokenStream.toList_empty, List.nil_append, h.ahead] at hrest
    exact hrest

end Tracks

end Lexer

end CoolLexer
