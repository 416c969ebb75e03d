import CoolLexer.FileSystem.Path
import Mathlib.Data.List.Flatten

/-!
# The parts of a path

Putting the parts of a path together again leaves out what leads nowhere. What is left is a path of
its own with the same parts, and so is every beginning of it.
-/

namespace CoolLexer.Path

/-- What a part leads to depends on it, so that it cannot be left out behind the first part. -/
def Matters (part : Text) : Prop := part ≠ [] ∧ part ≠ ['.']

instance : DecidablePred Matters :=
  fun part => inferInstanceAs (Decidable (part ≠ [] ∧ part ≠ ['.']))

/-- The parts of a path, none of which can be left out. -/
def IsNormal : List Text → Prop
  | [] => True
  | first :: rest =>
      (first = ['/'] ∨ first ≠ [] ∧ '/' ∉ first) ∧ ∀ part ∈ rest, Matters part ∧ '/' ∉ part

theorem slash_notMem_of_mem_splitOn {path part : Text} (h : part ∈ path.splitOn '/') :
    '/' ∉ part := by
  induction path generalizing part with
  | nil =>
      rw [List.splitOn_nil, List.mem_singleton] at h
      rw [h]
      exact List.not_mem_nil
  | cons c path ih =>
      rw [List.splitOn_cons_eq_if_modifyHead] at h
      split at h
      · rcases List.mem_cons.mp h with rfl | h
        · exact List.not_mem_nil
        · exact ih h
      · next hc =>
          cases hparts : path.splitOn '/' with
          | nil => exact absurd hparts (List.splitOn_ne_nil '/' path)
          | cons first rest =>
              rw [hparts] at h ih
              rcases List.mem_cons.mp h with rfl | h
              · have hfirst := ih List.mem_cons_self
                have hslash : '/' ≠ c := by
                  rintro rfl
                  exact hc rfl
                simp [hfirst, hslash]
              · exact ih (List.mem_cons_of_mem first h)

theorem intercalate_cons (c : Char) (first : Text) (rest : List Text) :
    [c].intercalate (first :: rest) = first ++ rest.flatMap (c :: ·) := by
  induction rest generalizing first with
  | nil => simp
  | cons next rest ih => simp [ih]

/-- A path starts with its first part, and every other part stands behind a slash. -/
theorem exists_parts (path : Text) :
    ∃ first rest, path.splitOn '/' = first :: rest ∧ path = first ++ rest.flatMap ('/' :: ·) := by
  cases hparts : path.splitOn '/' with
  | nil => exact absurd hparts (List.splitOn_ne_nil '/' path)
  | cons first rest =>
      refine ⟨first, rest, rfl, ?_⟩
      rw [← intercalate_cons, ← hparts, List.intercalate_splitOn]

theorem head?_eq_slash_iff {path first : Text} {rest : List Text}
    (h : path.splitOn '/' = first :: rest) :
    path.head? = some '/' ↔ first = [] ∧ rest ≠ [] := by
  obtain ⟨first', rest', hparts, hpath⟩ := exists_parts path
  obtain ⟨rfl, rfl⟩ := List.cons.inj (hparts.symm.trans h)
  rw [hpath]
  cases first' with
  | nil => cases rest' <;> simp
  | cons c tail =>
      have hslash : '/' ∉ c :: tail := slash_notMem_of_mem_splitOn (h ▸ List.mem_cons_self)
      have hc : c ≠ '/' := by
        rintro rfl
        exact hslash List.mem_cons_self
      simp [hc]

section
variable {first : Text} {rest : List Text}

theorem ofComponents_root (rest : List Text) :
    ofComponents (['/'] :: rest) = '/' :: ['/'].intercalate rest := by
  rw [ofComponents]

theorem ofComponents_cons (h : first ≠ ['/']) (rest : List Text) :
    ofComponents (first :: rest) = first ++ rest.flatMap ('/' :: ·) := by
  rw [ofComponents, intercalate_cons]
  intro rest' heq
  exact h (List.cons.inj heq).1

theorem ofComponents_root_of_ne_nil (h : rest ≠ []) :
    ofComponents (['/'] :: rest) = rest.flatMap ('/' :: ·) := by
  cases rest with
  | nil => exact absurd rfl h
  | cons next rest => rw [ofComponents_root, intercalate_cons, List.flatMap_cons, List.cons_append]

theorem ne_root_of_slash_notMem (h : '/' ∉ first) : first ≠ ['/'] := by
  rintro rfl
  exact h List.mem_cons_self

end

theorem IsNormal.of_concat {parts : List Text} {part : Text} (h : IsNormal (parts ++ [part])) :
    IsNormal parts := by
  cases parts with
  | nil => trivial
  | cons first rest => exact ⟨h.1, fun other hother => h.2 other (List.mem_append_left _ hother)⟩

/-- Without its last part a path is a beginning of itself. -/
theorem ofComponents_prefix_concat {parts : List Text} {part : Text}
    (h : IsNormal (parts ++ [part])) : ofComponents parts <+: ofComponents (parts ++ [part]) := by
  cases parts with
  | nil => exact List.nil_prefix
  | cons first rest =>
      rcases h.1 with rfl | ⟨-, hslash⟩
      · have hrest : rest ++ [part] ≠ [] := List.concat_ne_nil part rest
        rw [List.cons_append, ofComponents_root_of_ne_nil hrest]
        cases rest with
        | nil => exact ⟨part, by simp [ofComponents_root]⟩
        | cons next rest =>
            rw [ofComponents_root_of_ne_nil (List.cons_ne_nil next rest), List.flatMap_append]
            exact List.prefix_append _ _
      · have hroot := ne_root_of_slash_notMem hslash
        rw [List.cons_append, ofComponents_cons hroot, ofComponents_cons hroot,
          List.flatMap_append, ← List.append_assoc]
        exact List.prefix_append _ _

section
variable {path first : Text} {rest : List Text}

theorem components_of_splitOn_root (h : path.splitOn '/' = [] :: rest) (hne : path ≠ []) :
    components path = ['/'] :: rest.filter (Matters ·) := by
  rw [components, h]
  simp only [List.isEmpty_iff, if_neg hne, if_true]
  rfl

theorem components_of_splitOn (h : path.splitOn '/' = first :: rest) (hfirst : first ≠ []) :
    components path = first :: rest.filter (Matters ·) := by
  rw [components, h]
  exact if_neg hfirst

theorem filter_matters {rest : List Text} (h : ∀ part ∈ rest, Matters part ∧ '/' ∉ part) :
    rest.filter (Matters ·) = rest :=
  List.filter_eq_self.mpr fun part hpart => decide_eq_true (h part hpart).1

theorem splitOn_ofComponents_root (h : ∀ part ∈ rest, '/' ∉ part) (hne : rest ≠ []) :
    (ofComponents (['/'] :: rest)).splitOn '/' = [] :: rest := by
  rw [ofComponents_root, List.splitOn_cons_eq_if_modifyHead, List.splitOn_intercalate '/' h hne]
  exact if_pos rfl

theorem splitOn_ofComponents (hfirst : '/' ∉ first) (h : ∀ part ∈ rest, '/' ∉ part) :
    (ofComponents (first :: rest)).splitOn '/' = first :: rest := by
  rw [ofComponents_cons (ne_root_of_slash_notMem hfirst), ← intercalate_cons]
  exact List.splitOn_intercalate '/' (List.forall_mem_cons.mpr ⟨hfirst, h⟩)
    (List.cons_ne_nil first rest)

/-- The parts of a path of such parts are these. -/
theorem components_ofComponents {parts : List Text} (h : IsNormal parts) :
    components (ofComponents parts) = parts := by
  cases parts with
  | nil => rfl
  | cons first rest =>
      have hslash : ∀ part ∈ rest, '/' ∉ part := fun part hpart => (h.2 part hpart).2
      rcases h.1 with rfl | ⟨hfirst, hnone⟩
      · by_cases hrest : rest = []
        · rw [hrest]
          rfl
        · have hne : ofComponents (['/'] :: rest) ≠ [] := by
            rw [ofComponents_root]
            exact List.cons_ne_nil _ _
          rw [components_of_splitOn_root (splitOn_ofComponents_root hslash hrest) hne,
            filter_matters h.2]
      · rw [components_of_splitOn (splitOn_ofComponents hnone hslash) hfirst, filter_matters h.2]

theorem isNormal_components (path : Text) : IsNormal (components path) := by
  obtain ⟨first, rest, hparts, -⟩ := exists_parts path
  have hslash {part : Text} (h : part ∈ first :: rest) : '/' ∉ part :=
    slash_notMem_of_mem_splitOn (hparts ▸ h)
  have hrest : ∀ part ∈ rest.filter (Matters ·), Matters part ∧ '/' ∉ part := by
    intro part hpart
    obtain ⟨hmem, hmatters⟩ := List.mem_filter.mp hpart
    exact ⟨of_decide_eq_true hmatters, hslash (List.mem_cons_of_mem first hmem)⟩
  by_cases hfirst : first = []
  · by_cases hpath : path = []
    · rw [hpath]
      trivial
    · rw [components_of_splitOn_root (hfirst ▸ hparts) hpath]
      exact ⟨.inl rfl, hrest⟩
  · rw [components_of_splitOn hparts hfirst]
    exact ⟨.inr ⟨hfirst, hslash List.mem_cons_self⟩, hrest⟩

/-- A path put together from its parts is got from it by leaving out characters. -/
theorem ofComponents_components_sublist (path : Text) :
    (ofComponents (components path)).Sublist path := by
  obtain ⟨first, rest, hparts, hpath⟩ := exists_parts path
  have hrest : ((rest.filter (Matters ·)).flatMap ('/' :: ·)).Sublist (rest.flatMap ('/' :: ·)) :=
    List.filter_sublist.flatMap _
  by_cases hfirst : first = []
  · by_cases hempty : path = []
    · rw [hempty]
      exact .slnil
    · rw [components_of_splitOn_root (hfirst ▸ hparts) hempty]
      rw [hfirst, List.nil_append] at hpath
      by_cases hnone : rest.filter (Matters ·) = []
      · rw [hnone, hpath]
        cases rest with
        | nil => exact absurd hpath hempty
        | cons next rest => exact (List.nil_sublist _).cons_cons '/'
      · rw [ofComponents_root_of_ne_nil hnone]
        exact hpath ▸ hrest
  · have hslash : '/' ∉ first := slash_notMem_of_mem_splitOn (hparts ▸ List.mem_cons_self)
    rw [components_of_splitOn hparts hfirst, ofComponents_cons (ne_root_of_slash_notMem hslash)]
    exact hpath ▸ hrest.append_left first

end

end CoolLexer.Path
