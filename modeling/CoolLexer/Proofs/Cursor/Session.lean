import CoolLexer.Proofs.Cursor.Motion
import CoolLexer.Proofs.Cursor.Peek

/-!
# Cursors and their clones

A cursor is moved, looked at, cloned, and set back to one of its clones, in any order. All of them
always stand behind a part of the source that consists of whole characters, with the counters that
belong to it, and whatever they are asked agrees with that place.
-/

namespace CoolLexer

namespace Cursor

/-- A text is the longest in front of `t` whose characters all satisfy `p`. -/
structure IsLongestRun (p : Char → Bool) (t run : Text) : Prop where
  leads : run <+: t
  satisfies : ∀ c ∈ run, p c = true
  longest : ∀ other, other <+: t → (∀ c ∈ other, p c = true) → other <+: run

/-- A cursor stands in `source` behind `passed`, and everything that can be asked of it tells so. -/
structure Stands (source passed : Text) (cursor : Cursor) : Prop where
  split : source = passed ++ cursor.rest
  offset : cursor.position.offset = passed.byteLength
  line : cursor.position.line = 1 + passed.count '\n'
  column : cursor.position.column = 1 + (passed.reverse.takeWhile (· != '\n')).length
  fits : cursor.position.Fits
  remaining : source.slice? cursor.position.offset source.byteLength = some cursor.rest
  atEnd : cursor.isAtEnd = true ↔ source.byteLength ≤ cursor.position.offset
  current : cursor.current? = cursor.rest.head?
  ended : cursor.current? = none ↔ cursor.isAtEnd = true
  /-- It can go on from here: no step fails, and no counter gets too large on the way. -/
  moves : ∀ n, cursor.Moves (cursor.rest.take n) (cursor.skip n)
  eats : ∀ p, cursor.Moves (cursor.eatWhile p).1 (cursor.eatWhile p).2 ∧
    IsLongestRun p cursor.rest (cursor.eatWhile p).1
  slices : ∀ n piece, cursor.sliceFrom? n = some piece ↔
    ∃ before, passed = before ++ piece ∧ before.byteLength = n
  refuses : ∀ n, cursor.sliceFrom? n = none ↔
    cursor.position.offset < n ∨ source.SplitsChar n

/-- The operations on a cursor that has clones. -/
inductive Operation where
  | advance
  | skip (n : Nat)
  | accept (c : Char)
  | eatWhile (p : Char → Bool)
  | current
  | peek (n : Nat)
  | atPair (first second : Char)
  | isAtEnd
  | sliceFrom (start : Nat)
  | rest
  | save
  /-- Goes back to a clone, if there are so many; the clone itself is kept. -/
  | restore (i : Nat)

/-- A cursor with the clones that have been made of it, the last one first. -/
structure Session where
  cursor : Cursor
  clones : List Cursor

namespace Session

def start (source : Text) : Session := ⟨Cursor.start source, []⟩

def step (session : Session) : Operation → Session
  | .advance => { session with cursor := session.cursor.advance.2 }
  | .skip n => { session with cursor := session.cursor.skip n }
  | .accept c => { session with cursor := (session.cursor.accept c).2 }
  | .eatWhile p => { session with cursor := (session.cursor.eatWhile p).2 }
  | .current | .peek _ | .atPair _ _ | .isAtEnd | .sliceFrom _ | .rest => session
  | .save => { session with clones := session.cursor :: session.clones }
  | .restore i => { session with cursor := session.clones[i]?.getD session.cursor }

def run (session : Session) (operations : List Operation) : Session := operations.foldl step session

end Session

theorem current?_eq_head? (cursor : Cursor) : cursor.current? = cursor.rest.head? := by
  rw [current?, peek?_eq_getElem?, List.head?_eq_getElem?]

theorem eatWhile_isLongestRun (cursor : Cursor) (p : Char → Bool) :
    IsLongestRun p cursor.rest (cursor.eatWhile p).1 where
  leads := List.takeWhile_prefix p
  satisfies c hc := List.all_eq_true.mp List.all_takeWhile c hc
  longest := by
    intro other hother hall
    obtain ⟨after, hrest⟩ := hother
    rw [eatWhile, ← hrest, List.takeWhile_append_of_pos hall]
    exact List.prefix_append other _

section
variable {source passed : Text} {cursor : Cursor} (h : cursor.HasPassed passed)
include h

theorem HasPassed.offset_eq : cursor.position.offset = passed.byteLength := by
  rw [h.position, Position.offset_advanceBy_start]

theorem HasPassed.sliceFrom?_eq_some_iff (n : Nat) (piece : Text) :
    cursor.sliceFrom? n = some piece ↔
      ∃ before, passed = before ++ piece ∧ before.byteLength = n := by
  rw [sliceFrom?, h.offset_eq, h.source, Text.slice?_eq_some_iff]
  constructor
  · rintro ⟨before, after, hsplit, hbefore, hstop⟩
    rw [← List.append_assoc] at hsplit
    rw [← Text.byteLength_append] at hstop
    exact ⟨before, Text.eq_of_byteLength_eq hsplit hstop.symm, hbefore⟩
  · rintro ⟨before, rfl, hbefore⟩
    exact ⟨before, cursor.rest, by simp, hbefore, by rw [Text.byteLength_append]⟩

theorem HasPassed.sliceFrom?_eq_none_iff (n : Nat) :
    cursor.sliceFrom? n = none ↔
      cursor.position.offset < n ∨ cursor.source.SplitsChar n := by
  constructor
  · intro hnone
    by_contra hinside
    rw [not_or, h.offset_eq, Nat.not_lt] at hinside
    obtain ⟨hpast, hwhole⟩ := hinside
    have hsize : n ≤ cursor.source.byteLength := by
      rw [h.source, Text.byteLength_append]
      omega
    obtain ⟨before, after, hsplit, rfl⟩ :=
      (Text.exists_append_or_splitsChar hsize).resolve_right hwhole
    obtain ⟨piece, hpiece⟩ :=
      Text.exists_eq_append_of_byteLength_le (hsplit.symm.trans h.source) hpast
    have hsome := (h.sliceFrom?_eq_some_iff _ piece).mpr ⟨before, hpiece, rfl⟩
    rw [hnone] at hsome
    cases hsome
  · rintro (hpast | hsplits)
    · rw [sliceFrom?, Text.slice?, if_neg (Nat.not_le.mpr hpast)]
    · exact hsplits.slice?_eq_none _

theorem HasPassed.isAtEnd_iff :
    cursor.isAtEnd = true ↔ cursor.source.byteLength ≤ cursor.position.offset := by
  rw [isAtEnd, List.isEmpty_iff, h.source, h.offset_eq, Text.byteLength_append]
  constructor
  · intro hrest
    simp [hrest]
  · intro hle
    exact Text.eq_nil_of_byteLength_le_zero (by omega)

theorem HasPassed.stands (hsize : cursor.source.length < 2 ^ 32 - 1) :
    cursor.Stands cursor.source passed where
  split := h.source
  offset := h.offset_eq
  line := by
    rw [h.position]
    exact Position.line_advanceBy _ _
  column := by rw [h.position, Position.column_advanceBy_start]
  fits := by
    rw [h.source, List.length_append] at hsize
    rw [h.position]
    exact Position.fits_advanceBy_start (by omega)
  remaining := by
    rw [h.offset_eq, h.source]
    exact Text.slice?_append_end passed cursor.rest
  atEnd := h.isAtEnd_iff
  current := cursor.current?_eq_head?
  ended := by rw [current?_eq_head?, isAtEnd, List.isEmpty_iff, List.head?_eq_none_iff]
  moves := h.moves_skip hsize
  eats p := by
    refine ⟨?_, cursor.eatWhile_isLongestRun p⟩
    have hmoves := h.moves_skip hsize (cursor.rest.takeWhile p).length
    rw [Text.take_length_takeWhile, ← eatWhile_eq_skip] at hmoves
    exact hmoves
  slices := h.sliceFrom?_eq_some_iff
  refuses := h.sliceFrom?_eq_none_iff

end

/-- A cursor on `source` that has been moved by nothing but its operations. -/
private def OnWay (source : Text) (cursor : Cursor) : Prop :=
  cursor.source = source ∧ ∃ passed, cursor.HasPassed passed

private theorem OnWay.skip {source : Text} {cursor : Cursor} (h : cursor.OnWay source) (n : Nat) :
    (cursor.skip n).OnWay source := by
  obtain ⟨hsource, passed, hpassed⟩ := h
  exact ⟨hsource, _, hpassed.skip n⟩

namespace Session

private theorem onWay_step {source : Text} {session : Session}
    (h : ∀ cursor ∈ session.cursor :: session.clones, cursor.OnWay source)
    (operation : Operation) :
    ∀ cursor ∈ (session.step operation).cursor :: (session.step operation).clones,
      cursor.OnWay source := by
  have hclones : ∀ cursor ∈ session.clones, cursor.OnWay source :=
    fun cursor hcursor => h cursor (List.mem_cons_of_mem _ hcursor)
  have hcursor := h session.cursor List.mem_cons_self
  cases operation with
  | advance => exact List.forall_mem_cons.mpr ⟨hcursor.skip 1, hclones⟩
  | skip n => exact List.forall_mem_cons.mpr ⟨hcursor.skip n, hclones⟩
  | accept c =>
      refine List.forall_mem_cons.mpr ⟨?_, hclones⟩
      rw [step, accept]
      split
      · exact hcursor.skip 1
      · exact hcursor
  | eatWhile p =>
      refine List.forall_mem_cons.mpr ⟨?_, hclones⟩
      rw [step, eatWhile_eq_skip]
      exact hcursor.skip _
  | current | peek | atPair | isAtEnd | sliceFrom | rest => exact h
  | save => exact List.forall_mem_cons.mpr ⟨hcursor, h⟩
  | restore i =>
      refine List.forall_mem_cons.mpr ⟨?_, hclones⟩
      rw [step]
      cases hclone : session.clones[i]? with
      | none => exact hcursor
      | some clone => exact hclones clone (List.mem_of_getElem? hclone)

private theorem onWay_run {source : Text} {session : Session}
    (h : ∀ cursor ∈ session.cursor :: session.clones, cursor.OnWay source)
    (operations : List Operation) :
    ∀ cursor ∈ (session.run operations).cursor :: (session.run operations).clones,
      cursor.OnWay source := by
  induction operations generalizing session with
  | nil => exact h
  | cons operation operations ih => exact ih (onWay_step h operation)

/-- Whatever is done with a cursor and its clones, each of them stands at a place of the source. -/
theorem run_stands (source : Text) (hsize : source.length < 2 ^ 32 - 1)
    (operations : List Operation) :
    let session := (start source).run operations
    ∀ cursor ∈ session.cursor :: session.clones, ∃ passed, cursor.Stands source passed := by
  intro session cursor hcursor
  have hstart : ∀ first ∈ (start source).cursor :: (start source).clones, first.OnWay source :=
    List.forall_mem_singleton.mpr ⟨rfl, [], hasPassed_start source⟩
  obtain ⟨rfl, passed, hpassed⟩ := onWay_run hstart operations cursor hcursor
  exact ⟨passed, hpassed.stands hsize⟩

theorem run_stands_of_restored :
    let source := "aé\n(b".toList
    let session := (start source).run
      [.eatWhile Char.isAlphanum, .save, .skip 2, .accept '(', .restore 0, .advance]
    source.length < 2 ^ 32 - 1 ∧ session.cursor.position = ⟨3, 1, 3⟩ ∧
      ∀ cursor ∈ session.cursor :: session.clones, ∃ passed, cursor.Stands source passed := by
  intro source session
  have hsize : source.length < 2 ^ 32 - 1 := by decide
  exact ⟨hsize, by decide, run_stands source hsize _⟩

end Session

end Cursor

end CoolLexer
