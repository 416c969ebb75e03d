import CoolLexer.Proofs.Lexer.Call
import CoolLexer.Proofs.Lexer.Comment
import Mathlib.Data.List.Basic

/-!
# Nested comments by their marks

A text is a row of marks, read from the left: `(*`, `*)` and single characters. Behind its `(*` a
comment ends with the first closing mark at which the closing marks outnumber the opening ones. The
scan, which counts the comments that are open, ends there as well.
-/

namespace CoolLexer.Comment

/-- A pair of characters that opens or closes a comment, or a character that is in no such pair. -/
inductive Mark where
  | opening
  | closing
  | char (c : Char)
deriving DecidableEq

def Mark.spelling : Mark → Text
  | opening => ['(', '*']
  | closing => ['*', ')']
  | char c => [c]

/-- The marks of a text. Pairs are read from the left and do not overlap. -/
def marks : Text → List Mark
  | '(' :: '*' :: rest => .opening :: marks rest
  | '*' :: ')' :: rest => .closing :: marks rest
  | c :: rest => .char c :: marks rest
  | [] => []

/-- The text that a row of marks is read from. -/
def spell (row : List Mark) : Text := row.flatMap Mark.spelling

/-- There are more closing marks than opening ones. -/
def Surplus (row : List Mark) : Prop := row.count .opening < row.count .closing

instance (row : List Mark) : Decidable (Surplus row) := inferInstanceAs (Decidable (_ < _))

/-- The place of the first closing mark at which closing marks outnumber opening ones. -/
def closing? (row : List Mark) : Option Nat :=
  (List.range row.length).find? fun i => row[i]? = some .closing ∧ Surplus (row.take (i + 1))

/-- What may stand between the `(*` of a comment and its `*)`: characters and comments. -/
inductive Inside : List Mark → Prop
  | nil : Inside []
  | char (c : Char) {rest : List Mark} : Inside rest → Inside (.char c :: rest)
  | comment {inner rest : List Mark} : Inside inner → Inside rest →
      Inside (.opening :: (inner ++ .closing :: rest))

/-- A comment as a whole. -/
def IsComment (row : List Mark) : Prop :=
  ∃ inner, Inside inner ∧ row = .opening :: (inner ++ [.closing])

/-- The scan of a comment with a counter of all comments that are open. The counter starts at one,
and the scan ends when it comes to zero. There is no result if the counter would go below zero. -/
def countedLength? (depth used : Nat) : Text → Option (Option Nat)
  | '(' :: '*' :: rest => countedLength? (depth + 1) (used + 2) rest
  | '*' :: ')' :: rest =>
      if depth = 0 then none
      else if depth - 1 = 0 then some (some (used + 2))
      else countedLength? (depth - 1) (used + 2) rest
  | _ :: rest => countedLength? depth (used + 1) rest
  | [] => some none

@[simp] theorem spell_nil : spell [] = [] := rfl

@[simp] theorem spell_cons (mark : Mark) (row : List Mark) :
    spell (mark :: row) = mark.spelling ++ spell row := rfl

@[simp] theorem spell_append (row row' : List Mark) :
    spell (row ++ row') = spell row ++ spell row' :=
  List.flatMap_append

/-- Every text is spelled by its marks. -/
theorem spell_marks (t : Text) : spell (marks t) = t := by
  fun_induction marks t with
  | case1 rest ih => rw [spell_cons, ih]; rfl
  | case2 rest ih => rw [spell_cons, ih]; rfl
  | case3 c rest _ _ ih => rw [spell_cons, ih]; rfl
  | case4 => rfl

example : marks "(*)*)".toList = [.opening, .char ')', .closing] := by decide

/-- The character starts neither `(*` nor `*)`. -/
def Single (c : Char) (rest : Text) : Prop :=
  (c = '(' → rest.head? ≠ some '*') ∧ (c = '*' → rest.head? ≠ some ')')

theorem marks_char {c : Char} {rest : Text} (h : Single c rest) :
    marks (c :: rest) = .char c :: marks rest := by
  rw [marks]
  · rintro rest' rfl rfl
    exact h.1 rfl rfl
  · rintro rest' rfl rfl
    exact h.2 rfl rfl

/-- The first mark of a text stands in front of the others. -/
theorem marks_eq_cons {t : Text} {mark : Mark} {row : List Mark} (h : marks t = mark :: row) :
    ∃ rest, t = mark.spelling ++ rest ∧ marks rest = row ∧ ∀ c, mark = .char c → Single c rest := by
  revert h
  fun_cases marks t with
  | case1 rest =>
      rintro ⟨⟩
      exact ⟨rest, rfl, rfl, by simp⟩
  | case2 rest =>
      rintro ⟨⟩
      exact ⟨rest, rfl, rfl, by simp⟩
  | case3 c rest hopen hclose =>
      rintro ⟨⟩
      refine ⟨rest, rfl, rfl, ?_⟩
      rintro d ⟨⟩
      constructor
      · intro hc hhead
        obtain ⟨after, rfl⟩ := List.head?_eq_some_iff.mp hhead
        exact hopen after hc rfl
      · intro hc hhead
        obtain ⟨after, rfl⟩ := List.head?_eq_some_iff.mp hhead
        exact hclose after hc rfl
  | case4 => intro h; cases h

/-- Where `depth` comments are open in front of the row, each closing mark of it has one to
close. -/
def Balanced (depth : Nat) (row : List Mark) : Prop :=
  ∀ n, (row.take n).count .closing ≤ depth + (row.take n).count .opening

theorem Balanced.count_le {depth : Nat} {row : List Mark} (h : Balanced depth row) :
    row.count .closing ≤ depth + row.count .opening := by
  have hall := h row.length
  rwa [List.take_length] at hall

private theorem Balanced.take {depth : Nat} {row : List Mark} (h : Balanced depth row) (k : Nat) :
    Balanced depth (row.take k) := by
  intro n
  rw [List.take_take]
  exact h _

private theorem count_cons (sought mark : Mark) (row : List Mark) :
    (mark :: row).count sought = [mark].count sought + row.count sought := by
  rw [← List.count_append, List.singleton_append]

private theorem Balanced.tail {depth : Nat} {mark : Mark} {row : List Mark}
    (h : Balanced depth (mark :: row)) :
    Balanced (depth + [mark].count .opening - [mark].count .closing) row := by
  intro n
  have hmark := h 1
  have hmore := h (n + 1)
  rw [List.take_succ_cons, List.take_zero] at hmark
  rw [List.take_succ_cons, count_cons .closing, count_cons .opening] at hmore
  omega

/-- One turn of the scan: it passes over a mark and counts the comments that are open then. -/
private theorem closeAfter?_mark {depth : Nat} (used : Nat) {mark : Mark} {rest : Text}
    (hsingle : ∀ c, mark = .char c → Single c rest)
    (hle : [mark].count .closing ≤ depth + [mark].count .opening) :
    closeAfter? depth used (mark.spelling ++ rest) =
      closeAfter? (depth + [mark].count .opening - [mark].count .closing)
        (used + mark.spelling.length) rest := by
  cases mark with
  | opening => rfl
  | closing =>
      cases depth with
      | zero => exact absurd hle (by decide)
      | succ depth => rfl
  | char c =>
      have h := hsingle c rfl
      exact closeAfter?_char depth used h.1 h.2

/-- While the marks are balanced the scan goes on behind them, with as many comments open as the
opening marks outnumber the closing ones. -/
theorem closeAfter?_marks {depth : Nat} (used : Nat) {front back : List Mark} {t : Text}
    (h : marks t = front ++ back) (hbalanced : Balanced depth front) :
    closeAfter? depth used t =
      closeAfter? (depth + front.count .opening - front.count .closing)
        (used + (spell front).length) (spell back) := by
  induction front generalizing depth used t with
  | nil =>
      rw [← spell_marks t, h]
      rfl
  | cons mark front ih =>
      obtain ⟨rest, rfl, hrest, hsingle⟩ := marks_eq_cons h
      have hmark := hbalanced 1
      have htail := hbalanced.tail
      rw [List.take_succ_cons, List.take_zero] at hmark
      have hdepth : depth + (mark :: front).count .opening - (mark :: front).count .closing =
          depth + [mark].count .opening - [mark].count .closing + front.count .opening -
            front.count .closing := by
        rw [count_cons .opening, count_cons .closing]
        omega
      have hused : used + (spell (mark :: front)).length =
          used + mark.spelling.length + (spell front).length := by
        rw [spell_cons, List.length_append, Nat.add_assoc]
      rw [closeAfter?_mark used hsingle hmark, hdepth, hused]
      exact ih _ hrest htail

/-- The counter never goes below zero. -/
theorem countedLength?_eq (depth used : Nat) (t : Text) :
    countedLength? (depth + 1) used t = some (closeAfter? depth used t) := by
  fun_induction closeAfter? depth used t with
  | case1 depth used rest ih => exact ih
  | case2 used rest => rfl
  | case3 used rest depth ih => exact ih
  | case4 depth used c rest hopen hclose ih =>
      rw [countedLength?]
      · exact ih
      · exact hopen
      · exact hclose
  | case5 depth used => rfl

section
variable {row : List Mark} {i : Nat}

/-- In front of the first surplus at a closing mark there is no surplus at any mark. -/
private theorem balanced_of_no_surplus {k : Nat}
    (h : ∀ j < k, ¬(row[j]? = some .closing ∧ Surplus (row.take (j + 1)))) :
    Balanced 0 (row.take k) := by
  have hall (n : Nat) (hn : n ≤ k) : (row.take n).count .closing ≤ (row.take n).count .opening := by
    induction n with
    | zero => simp
    | succ n ih =>
        have hbefore := ih (Nat.le_of_succ_le hn)
        have hhere := h n hn
        rw [List.take_add_one] at hhere ⊢
        cases hmark : row[n]? with
        | none => simpa [hmark] using hbefore
        | some mark =>
            rw [hmark] at hhere
            simp only [Option.toList_some, List.count_append] at hhere ⊢
            cases mark with
            | opening => simp; omega
            | closing => simpa [Surplus] using hhere
            | char c => simpa using hbefore
  intro n
  rw [List.take_take, Nat.zero_add]
  exact hall _ (Nat.min_le_right n k)

theorem closing?_eq_some (h : closing? row = some i) :
    ∃ back, row = row.take i ++ .closing :: back ∧ Balanced 0 (row.take i) ∧
      (row.take i).count .opening = (row.take i).count .closing := by
  obtain ⟨hfound, -, hbefore⟩ := List.find?_range_eq_some.mp h
  obtain ⟨hmark, hsurplus⟩ := of_decide_eq_true hfound
  have hbalanced : Balanced 0 (row.take i) := by
    apply balanced_of_no_surplus
    intro j hj
    simpa only [Bool.not_eq_true', decide_eq_false_iff_not] using hbefore j hj
  have hle := hbalanced.count_le
  obtain ⟨hlt, hget⟩ := List.getElem?_eq_some_iff.mp hmark
  refine ⟨row.drop (i + 1), ?_, hbalanced, ?_⟩
  · rw [← hget, List.getElem_cons_drop, List.take_append_drop]
  · rw [Surplus, List.take_add_one, hmark] at hsurplus
    simp at hsurplus
    omega

theorem closing?_eq_none (h : closing? row = none) : Balanced 0 row := by
  have hbalanced : Balanced 0 (row.take row.length) := by
    apply balanced_of_no_surplus
    intro j hj
    have hnot := List.find?_range_eq_none.mp h j hj
    simpa only [Bool.not_eq_true', decide_eq_false_iff_not] using hnot
  rwa [List.take_length] at hbalanced

/-- Up to the mark that closes the comment, no closing mark is without one to close. -/
private theorem balanced_of_open {front back : List Mark} (hsplit : row = front ++ back)
    (hopen : ∀ i, closing? row = some i → front.length ≤ i) : Balanced 0 front := by
  have hfront : row.take front.length = front := by rw [hsplit, List.take_left]
  cases hclosing : closing? row with
  | none =>
      rw [← hfront]
      exact (closing?_eq_none hclosing).take front.length
  | some i =>
      obtain ⟨-, -, hbalanced, -⟩ := closing?_eq_some hclosing
      have hmin : min front.length i = front.length := Nat.min_eq_left (hopen i hclosing)
      have hbefore := hbalanced.take front.length
      rwa [List.take_take, hmin, hfront] at hbefore

end

/-- A scan that comes to a closing mark with nothing left open but the comment itself ends there. -/
private theorem blockLength?_of_balanced {t : Text} {front back : List Mark}
    (h : marks t = front ++ .closing :: back) (hbalanced : Balanced 0 front)
    (hcount : front.count .opening = front.count .closing) :
    blockLength? t = some ((spell front).length + 2) := by
  have hdepth : 0 + front.count .opening - front.count .closing = 0 := by omega
  rw [blockLength?, closeAfter?_marks 0 h hbalanced, hdepth, Nat.zero_add]
  rfl

private theorem blockLength?_of_closing? {t : Text} {i : Nat} (h : closing? (marks t) = some i) :
    blockLength? t = some (spell ((marks t).take (i + 1))).length := by
  obtain ⟨back, hsplit, hbalanced, hcount⟩ := closing?_eq_some h
  have hthrough : (marks t).take (i + 1) = (marks t).take i ++ [.closing] := by
    have hmark : (marks t)[i]? = some .closing := by
      obtain ⟨hfound, -, -⟩ := List.find?_range_eq_some.mp h
      exact (of_decide_eq_true hfound).1
    rw [List.take_add_one, hmark]
    rfl
  rw [blockLength?_of_balanced hsplit hbalanced hcount, hthrough, spell_append, List.length_append]
  rfl

private theorem blockLength?_of_closing?_eq_none {t : Text} (h : closing? (marks t) = none) :
    blockLength? t = none := by
  have hsplit : marks t = marks t ++ [] := (List.append_nil _).symm
  rw [blockLength?, closeAfter?_marks 0 hsplit (closing?_eq_none h), spell_nil, closeAfter?]

theorem Balanced.append {depth : Nat} {front back : List Mark} (hfront : Balanced depth front)
    (hback : Balanced (depth + front.count .opening - front.count .closing) back) :
    Balanced depth (front ++ back) := by
  intro n
  have hn := hfront n
  have hall := hfront.count_le
  have hrest := hback (n - front.length)
  rw [List.take_append, List.count_append, List.count_append]
  rcases Nat.le_total n front.length with hle | hle
  · rw [Nat.sub_eq_zero_of_le hle, List.take_zero]
    simpa using hn
  · rw [List.take_of_length_le hle]
    omega

private theorem balanced_singleton {depth : Nat} {mark : Mark}
    (h : [mark].count .closing ≤ depth + [mark].count .opening) : Balanced depth [mark] := by
  intro n
  cases n with
  | zero => simp
  | succ n => simpa using h

/-- What stands inside a comment closes the comments that it opens, and no others. -/
private theorem Inside.balanced {inner : List Mark} (h : Inside inner) (depth : Nat) :
    Balanced depth inner ∧ inner.count .opening = inner.count .closing := by
  induction h generalizing depth with
  | nil => exact ⟨by simp [Balanced], rfl⟩
  | @char c rest _ ih =>
      obtain ⟨hrest, hcount⟩ := ih depth
      have hchar : Balanced depth [.char c] := balanced_singleton (Nat.zero_le _)
      exact ⟨hchar.append hrest, by simpa using hcount⟩
  | @comment inner rest _ _ ihi ihr =>
      obtain ⟨hinner, hinnerCount⟩ := ihi (depth + 1)
      obtain ⟨hrest, hrestCount⟩ := ihr depth
      have hopening : Balanced depth [.opening] := balanced_singleton (Nat.zero_le _)
      have hclosing : Balanced (depth + 1) [.closing] :=
        balanced_singleton (Nat.le_add_left 1 depth)
      have hback : Balanced (depth + 1 + inner.count .opening - inner.count .closing)
          (.closing :: rest) := by
        rw [hinnerCount, Nat.add_sub_cancel]
        exact hclosing.append hrest
      constructor
      · exact hopening.append (hinner.append hback)
      · simp [hinnerCount, hrestCount]
        omega

/-- A text that ends with a closing mark has the same marks in front of every text. -/
theorem marks_append {t : Text} {row : List Mark} (h : marks t = row ++ [.closing]) (after : Text) :
    marks (t ++ after) = marks t ++ marks after := by
  induction row generalizing t with
  | nil =>
      obtain ⟨rest, rfl, hrest, -⟩ := marks_eq_cons h
      have hnil := spell_marks rest
      rw [hrest] at hnil
      subst hnil
      rfl
  | cons mark row ih =>
      obtain ⟨rest, rfl, hrest, hsingle⟩ := marks_eq_cons h
      have hmore := ih hrest
      cases mark with
      | opening => exact congrArg (.opening :: ·) hmore
      | closing => exact congrArg (.closing :: ·) hmore
      | char c =>
          have hhead : (rest ++ after).head? = rest.head? := by
            cases rest with
            | nil => simp [marks] at hrest
            | cons d rest => rfl
          have hsame : Single c (rest ++ after) := by
            rw [Single, hhead]
            exact hsingle c rfl
          show marks (c :: (rest ++ after)) = marks (c :: rest) ++ marks after
          rw [marks_char hsame, marks_char (hsingle c rfl), hmore, List.cons_append]

/-- The rest of a comment is a comment of the grammar over marks, behind its opening mark. -/
private theorem Tail.exists_inside {t : Text} (h : Tail t) :
    ∃ inner, Inside inner ∧ marks t = inner ++ [.closing] := by
  induction h with
  | close => exact ⟨[], .nil, rfl⟩
  | @nested inner rest _ _ ihi ihr =>
      obtain ⟨innerMarks, hinner, hi⟩ := ihi
      obtain ⟨restMarks, hrest, hr⟩ := ihr
      refine ⟨.opening :: (innerMarks ++ .closing :: restMarks), .comment hinner hrest, ?_⟩
      rw [marks, marks_append hi, hi, hr]
      simp
  | @char c rest hopen hclose _ ih =>
      obtain ⟨inner, hinner, hmarks⟩ := ih
      refine ⟨.char c :: inner, .char c hinner, ?_⟩
      rw [marks_char ⟨hopen, hclose⟩, hmarks, List.cons_append]

/-- A text is a comment exactly where the scan of it ends with it, whatever follows. -/
theorem isComment_iff {tail after : Text} :
    IsComment (marks ('(' :: '*' :: tail)) ↔ blockLength? (tail ++ after) = some tail.length := by
  constructor
  · rintro ⟨inner, hinner, hmarks⟩
    have htail : marks tail = inner ++ [.closing] := (List.cons.inj hmarks).2
    have hsplit : marks (tail ++ after) = inner ++ .closing :: marks after := by
      rw [marks_append htail, htail, List.append_assoc]
      rfl
    have hlength : tail.length = (spell inner).length + 2 := by
      have hspell := congrArg List.length (spell_marks tail)
      rw [htail, spell_append, List.length_append] at hspell
      exact hspell.symm
    obtain ⟨hbalanced, hcount⟩ := hinner.balanced 0
    rw [hlength]
    exact blockLength?_of_balanced hsplit hbalanced hcount
  · intro h
    obtain ⟨s, rest, hs, hsplit, hlength⟩ := blockLength?_eq_some_iff.mp h
    obtain ⟨rfl, -⟩ := List.append_inj hsplit hlength
    obtain ⟨inner, hinner, hmarks⟩ := hs.exists_inside
    exact ⟨inner, hinner, by rw [marks, hmarks]⟩

end CoolLexer.Comment

namespace CoolLexer.Lexer

open Comment

/-- What the call for a block comment does, told by the marks behind the two characters that it
takes for `(*`. -/
structure SkipsOneComment (lexer : Lexer) : Prop where
  closed : ∀ i, closing? (marks (lexer.cursor.rest.drop 2)) = some i →
    lexer.skipBlockComment =
      (.ok (), lexer.skip (2 + (spell ((marks (lexer.cursor.rest.drop 2)).take (i + 1))).length))
  unclosed : closing? (marks (lexer.cursor.rest.drop 2)) = none →
    lexer.skipBlockComment =
      (.error .endOfInputInComment, lexer.skip lexer.cursor.rest.length)
  counter : ∀ front back, marks (lexer.cursor.rest.drop 2) = front ++ back →
    (∀ i, closing? (marks (lexer.cursor.rest.drop 2)) = some i → front.length ≤ i) →
    front.count .closing ≤ front.count .opening ∧
      countedLength? 1 0 (lexer.cursor.rest.drop 2) =
        countedLength? (1 + front.count .opening - front.count .closing) (spell front).length
          (spell back)
  counted : countedLength? 1 0 (lexer.cursor.rest.drop 2) =
    some (blockLength? (lexer.cursor.rest.drop 2))
  word : ∀ s after, lexer.cursor.rest = s ++ after → ['(', '*'] <+: s ++ after →
    (lexer.skipBlockComment = (.ok (), lexer.skip s.length) ↔ IsComment (marks s))

private theorem skipBlockComment_of_some {lexer : Lexer} {n : Nat}
    (h : blockLength? (lexer.cursor.rest.drop 2) = some n) :
    lexer.skipBlockComment = (.ok (), lexer.skip (2 + n)) := by
  have hrest : blockLength? (lexer.skip 2).cursor.rest = some n := h
  rw [skipBlockComment]
  simp only [hrest, skip_skip]

private theorem skip_of_length_le {lexer : Lexer} {n : Nat} (h : lexer.cursor.rest.length ≤ n) :
    lexer.skip n = lexer.skip lexer.cursor.rest.length := by
  simp only [skip, Cursor.skip, List.drop_of_length_le h, List.take_of_length_le h,
    List.drop_length, List.take_length]

private theorem skip_injective {lexer : Lexer} {m n : Nat} (hm : m ≤ lexer.cursor.rest.length)
    (hn : n ≤ lexer.cursor.rest.length) (h : lexer.skip m = lexer.skip n) : m = n := by
  have hlength := congrArg (·.cursor.rest.length) h
  simp only [skip, Cursor.rest_skip, List.length_drop] at hlength
  omega

private theorem skipBlockComment_of_none {lexer : Lexer}
    (h : blockLength? (lexer.cursor.rest.drop 2) = none) :
    lexer.skipBlockComment =
      (.error .endOfInputInComment, lexer.skip lexer.cursor.rest.length) := by
  have hrest : blockLength? (lexer.skip 2).cursor.rest = none := h
  have hall : lexer.cursor.rest.length ≤ 2 + (lexer.skip 2).cursor.rest.length := by
    simp only [skip, Cursor.rest_skip, List.length_drop]
    omega
  rw [skipBlockComment]
  simp only [hrest, skip_skip, skip_of_length_le hall]

private theorem skipBlockComment_eq_iff {lexer : Lexer} {n : Nat}
    (hn : n ≤ lexer.cursor.rest.length) (hpair : 2 ≤ lexer.cursor.rest.length) :
    lexer.skipBlockComment = (.ok (), lexer.skip n) ↔
      ∃ m, n = 2 + m ∧ blockLength? (lexer.cursor.rest.drop 2) = some m := by
  constructor
  · intro hskip
    cases hlength : blockLength? (lexer.cursor.rest.drop 2) with
    | none =>
        rw [skipBlockComment_of_none hlength] at hskip
        cases hskip
    | some m =>
        have hm := blockLength?_le hlength
        rw [List.length_drop] at hm
        rw [skipBlockComment_of_some hlength] at hskip
        have hsame := skip_injective (by omega) hn (Prod.mk.inj hskip).2
        exact ⟨m, hsame.symm, rfl⟩
  · rintro ⟨m, rfl, hlength⟩
    exact skipBlockComment_of_some hlength

private theorem skipBlockComment_iff_isComment {lexer : Lexer} {s after : Text}
    (hrest : lexer.cursor.rest = s ++ after) (hpair : ['(', '*'] <+: s ++ after) :
    lexer.skipBlockComment = (.ok (), lexer.skip s.length) ↔ IsComment (marks s) := by
  have hsize : s.length ≤ lexer.cursor.rest.length := by simp [hrest]
  have htwo : 2 ≤ lexer.cursor.rest.length := hrest ▸ hpair.length_le
  rw [skipBlockComment_eq_iff hsize htwo, hrest]
  constructor
  · rintro ⟨m, hm, hlength⟩
    have hlong : ['(', '*'].length ≤ s.length := hm ▸ Nat.le_add_right 2 m
    obtain ⟨tail, rfl⟩ :=
      List.prefix_of_prefix_length_le hpair (List.prefix_append s after) hlong
    rw [List.length_append] at hm
    obtain rfl := Nat.add_left_cancel hm
    exact isComment_iff.mpr hlength
  · intro hcomment
    obtain ⟨tail, rfl⟩ : ∃ tail, s = ['(', '*'] ++ tail := by
      obtain ⟨inner, -, hmarks⟩ := hcomment
      obtain ⟨tail, hs, -⟩ := marks_eq_cons hmarks
      exact ⟨tail, hs⟩
    exact ⟨tail.length, List.length_append, isComment_iff.mp hcomment⟩

/-- The call for a block comment skips exactly one comment, with those nested in it, or all the rest
where the comment is not closed. -/
theorem skipBlockComment_skipsOneComment (lexer : Lexer) : lexer.SkipsOneComment where
  closed i hi := skipBlockComment_of_some (blockLength?_of_closing? hi)
  unclosed hnone := skipBlockComment_of_none (blockLength?_of_closing?_eq_none hnone)
  counter front back hsplit hopen := by
    have hbalanced := balanced_of_open hsplit hopen
    have hcount := hbalanced.count_le
    have hscan := closeAfter?_marks 0 hsplit hbalanced
    rw [Nat.zero_add] at hcount
    have hdepth : 1 + front.count .opening - front.count .closing =
        front.count .opening - front.count .closing + 1 := by omega
    rw [countedLength?_eq 0, hdepth, countedLength?_eq _ (spell front).length, hscan, Nat.zero_add,
      Nat.zero_add]
    exact ⟨hcount, rfl⟩
  counted := countedLength?_eq 0 0 _
  word s after hrest hpair := skipBlockComment_iff_isComment hrest hpair

end CoolLexer.Lexer
