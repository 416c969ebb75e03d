import CoolLexer.FileSystem.Tree
import Mathlib.Data.List.Basic

/-!
# Writing to one place

Writing to a path makes or replaces the file at one place of the tree. Every other place keeps what
it holds, and the path then leads to the file. Only the null device keeps nothing of what is written
to it.
-/

namespace CoolLexer.FileTree

/-- The trees differ at most in the file at one place, which holds `content` in the second. -/
structure Replaces (before after : FileTree) (place : List Text) (content : ByteArray) : Prop where
  file : after.node? place = some (.file content)
  noDirectory : before.node? place ≠ some .directory
  others : ∀ other, other ≠ place → after.node? other = before.node? other
  working : after.working = before.working
  refusal : after.refusal = before.refusal

/-- A file is written at a path, which leads to a place. -/
structure Writes (before after : FileTree) (path : Text) (place : List Text) (content : ByteArray) :
    Prop extends before.Replaces after place content where
  leads : after.locate false path = .ok (.file place content)
  reads : after.read path = after.permit .read place content

/-- What the end of a way through the tree says is true of the tree. -/
def Place.Holds (tree : FileTree) : Place → Prop
  | directory _ => True
  | file place content => tree.node? place = some (.file content)
  | nullDevice place => tree.node? place = some .nullDevice
  | free place => tree.node? place = none

/-- The file at the place can be written at the end of the way. -/
def Place.Takes : Place → List Text → Prop
  | directory _, _ | nullDevice _, _ => False
  | file path _, place | free path, place => path = place

private theorem lookup_filter_ne {place other : List Text} (h : other ≠ place)
    (nodes : List (List Text × FileNode)) :
    (nodes.filter fun entry => entry.1 ≠ place).lookup other = nodes.lookup other := by
  induction nodes with
  | nil => rfl
  | cons entry nodes ih =>
      obtain ⟨key, node⟩ := entry
      by_cases hkey : key = place
      · have hother : (other == key) = false := beq_false_of_ne (hkey ▸ h)
        rw [List.filter_cons_of_neg (by simpa using hkey), List.lookup_cons, hother]
        exact ih
      · rw [List.filter_cons_of_pos (by simpa using hkey), List.lookup_cons, List.lookup_cons, ih]

theorem node?_put_self (tree : FileTree) {place : List Text} (h : place ≠ []) (node : FileNode) :
    (tree.put place node).node? place = some node := by
  cases place with
  | nil => exact absurd rfl h
  | cons part parts => simp [node?, put]

theorem node?_put_of_ne (tree : FileTree) {place other : List Text} (h : other ≠ place)
    (node : FileNode) : (tree.put place node).node? other = tree.node? other := by
  cases other with
  | nil => rfl
  | cons part parts =>
      have hother : ((part :: parts) == place) = false := beq_false_of_ne h
      show List.lookup _ ((place, node) :: _) = List.lookup _ tree.nodes
      rw [List.lookup_cons, hother]
      exact lookup_filter_ne h tree.nodes

/-- A file can be put at every place that is not a directory. -/
theorem replaces_put {tree : FileTree} {place : List Text} (h : tree.node? place ≠ some .directory)
    (content : ByteArray) : tree.Replaces (tree.put place (.file content)) place content where
  file := by
    apply node?_put_self
    rintro rfl
    exact h rfl
  noDirectory := h
  others _ hother := node?_put_of_ne tree hother _
  working := rfl
  refusal := rfl

theorem permit_eq_ok_iff {α : Type} {tree : FileTree} {access : Access} {place : List Text}
    {result found : α} : tree.permit access place result = .ok found ↔
      tree.refusal access place = none ∧ result = found := by
  rw [permit]
  cases tree.refusal access place with
  | none => simp
  | some cause => simp

theorem look_eq_ok_iff {tree : FileTree} {place : List Text} {found : Option FileNode} :
    tree.look place = .ok found ↔
      tree.refusal .look place = none ∧ tree.node? place = found :=
  permit_eq_ok_iff

theorem noDirectory_of_takes {tree : FileTree} {found : Place} {place : List Text}
    (hfound : found.Takes place) (hholds : found.Holds tree) :
    tree.node? place ≠ some .directory := by
  cases found with
  | directory path => exact hfound.elim
  | nullDevice path => exact hfound.elim
  | file path old =>
      cases hfound
      rw [show tree.node? place = some (.file old) from hholds]
      exact nofun
  | free path =>
      cases hfound
      rw [show tree.node? place = none from hholds]
      exact nofun

/-- A part of a path that can be the name of a file. -/
structure IsName (part : Text) : Prop where
  moves : ¬(part = [] ∨ part = ['.'])
  notUp : part ≠ ['.', '.']
  short : part.byteLength ≤ 255

/-- The ways through the tree: from a directory, the parts of a path lead to a place. -/
inductive Leads (tree : FileTree) : List Text → List Text → Place → Prop
  | here (directory : List Text) : tree.Leads directory [] (.directory directory)
  | stay {directory : List Text} {part : Text} {rest : List Text} {found : Place} :
      part = [] ∨ part = ['.'] → tree.Leads directory rest found →
      tree.Leads directory (part :: rest) found
  | up {directory rest : List Text} {found : Place} : tree.Leads directory.dropLast rest found →
      tree.Leads directory (['.', '.'] :: rest) found
  | enter {directory : List Text} {part : Text} {rest : List Text} {found : Place} :
      IsName part → tree.look (directory ++ [part]) = .ok (some .directory) →
      tree.Leads (directory ++ [part]) rest found → tree.Leads directory (part :: rest) found
  | file {directory : List Text} {part : Text} {content : ByteArray} :
      IsName part → tree.look (directory ++ [part]) = .ok (some (.file content)) →
      tree.Leads directory [part] (.file (directory ++ [part]) content)
  | nullDevice {directory : List Text} {part : Text} :
      IsName part → tree.look (directory ++ [part]) = .ok (some .nullDevice) →
      tree.Leads directory [part] (.nullDevice (directory ++ [part]))
  | free {directory : List Text} {part : Text} :
      IsName part → tree.look (directory ++ [part]) = .ok none →
      tree.Leads directory [part] (.free (directory ++ [part]))

section
variable {tree : FileTree} {directory parts : List Text} {found : Place}

theorem leads_of_follow {create : Bool} (h : tree.follow create directory parts = .ok found) :
    tree.Leads directory parts found := by
  induction parts generalizing directory with
  | nil =>
      cases Except.ok.inj h
      exact .here directory
  | cons part rest ih =>
      rw [follow] at h
      split at h
      · next hstay => exact .stay (by simpa using hstay) (ih h)
      next hstay =>
      split at h
      · next hup =>
          subst hup
          exact .up (ih h)
      next hup =>
      split at h
      · cases h
      split at h
      · cases h
      next hlong =>
      have hname : IsName part := ⟨by simpa using hstay, hup, Nat.le_of_not_lt hlong⟩
      dsimp only at h
      split at h
      · cases h
      · next hnode => exact .enter hname hnode (ih h)
      · next content hnode =>
          split at h
          · next hrest =>
              cases Except.ok.inj h
              cases List.isEmpty_iff.mp hrest
              exact .file hname hnode
          · cases h
      · next hnode =>
          split at h
          · next hrest =>
              cases Except.ok.inj h
              cases List.isEmpty_iff.mp hrest
              exact .nullDevice hname hnode
          · cases h
      · next hnode =>
          split at h
          · next hrest =>
              cases Except.ok.inj h
              cases List.isEmpty_iff.mp hrest
              exact .free hname hnode
          · cases h

theorem follow_of_isName {create : Bool} {part : Text} {rest : List Text} (h : IsName part)
    (hslash : (create && !rest.isEmpty && rest.all List.isEmpty) = false) :
    tree.follow create directory (part :: rest) =
      match tree.look (directory ++ [part]) with
      | .error cause => .error cause
      | .ok (some .directory) => tree.follow create (directory ++ [part]) rest
      | .ok (some (.file content)) =>
          if rest.isEmpty then .ok (.file (directory ++ [part]) content) else .error .notADirectory
      | .ok (some .nullDevice) =>
          if rest.isEmpty then .ok (.nullDevice (directory ++ [part])) else .error .notADirectory
      | .ok none =>
          if rest.isEmpty then .ok (.free (directory ++ [part])) else .error .notFound := by
  rewrite [follow, if_neg (by simpa using h.moves), if_neg h.notUp,
    if_neg (Bool.eq_false_iff.mp hslash), if_neg (Nat.not_lt.mpr h.short)]
  rfl

theorem Leads.follow_eq (h : tree.Leads directory parts found) :
    tree.follow false directory parts = .ok found := by
  induction h with
  | here directory => rfl
  | stay hstay _ ih => rwa [follow, if_pos (by simpa using hstay)]
  | up _ ih => rwa [follow, if_neg (by decide), if_pos rfl]
  | enter hname hlook _ ih => rw [follow_of_isName hname (by simp), hlook, ih]
  | file hname hlook | nullDevice hname hlook | free hname hlook =>
      rw [follow_of_isName hname (by simp), hlook]
      rfl

theorem Leads.holds (h : tree.Leads directory parts found) : found.Holds tree := by
  induction h with
  | here => trivial
  | stay _ _ ih | up _ ih | enter _ _ _ ih => exact ih
  | file _ hlook | nullDevice _ hlook | free _ hlook => exact (look_eq_ok_iff.mp hlook).2

section
variable {after : FileTree} {place : List Text} {content : ByteArray}

theorem Replaces.look_self {old : Option FileNode} (h : tree.Replaces after place content)
    (hlook : tree.look place = .ok old) : after.look place = .ok (some (.file content)) := by
  rw [look_eq_ok_iff, h.refusal]
  exact ⟨(look_eq_ok_iff.mp hlook).1, h.file⟩

theorem Replaces.look_of_ne {other : List Text} (h : tree.Replaces after place content)
    (hother : other ≠ place) : after.look other = tree.look other := by
  rw [look, look, permit, permit, h.refusal, h.others other hother]

/-- The way to a file that is written leads to it again. -/
theorem Replaces.leads (h : tree.Replaces after place content) (hfound : found.Takes place)
    (hleads : tree.Leads directory parts found) :
    after.Leads directory parts (.file place content) := by
  induction hleads with
  | here => exact hfound.elim
  | stay hstay _ ih => exact .stay hstay (ih hfound)
  | up _ ih => exact .up (ih hfound)
  | enter hname hlook _ ih =>
      refine .enter hname ?_ (ih hfound)
      -- A directory is not the place where the file is put.
      rw [h.look_of_ne fun hplace => h.noDirectory (hplace ▸ (look_eq_ok_iff.mp hlook).2)]
      exact hlook
  | file hname hlook =>
      cases hfound
      exact .file hname (h.look_self hlook)
  | nullDevice => exact hfound.elim
  | free hname hlook =>
      cases hfound
      exact .file hname (h.look_self hlook)

end

/-- A text that can be a path. -/
structure IsPath (path : Text) : Prop where
  noNul : '\x00' ∉ path
  short : path.byteLength < 4096

section
variable {create : Bool} {path : Text}

theorem locate_of_isPath (h : IsPath path) (hne : path ≠ []) :
    tree.locate create path =
      tree.follow create (if path.head? = some '/' then [] else tree.working)
        (path.splitOn '/') := by
  rw [locate, if_neg (by simpa using h.noNul), if_neg (by simpa using hne),
    if_neg (Nat.not_le.mpr h.short)]

theorem isPath_of_locate (h : tree.locate create path = .ok found) : IsPath path ∧ path ≠ [] := by
  rw [locate] at h
  split at h
  · cases h
  next hnul =>
  split at h
  · cases h
  next hempty =>
  split at h
  · cases h
  next hshort =>
  exact ⟨⟨by simpa using hnul, Nat.not_le.mp hshort⟩, by simpa using hempty⟩

theorem holds_of_locate (h : tree.locate create path = .ok found) : found.Holds tree := by
  obtain ⟨hpath, hne⟩ := isPath_of_locate h
  rw [locate_of_isPath hpath hne] at h
  exact (leads_of_follow h).holds

/-- Where a path is found depends only on where the ways along its parts lead. -/
theorem locate_of_leads {after : FileTree} {found' : Place}
    (hworking : after.working = tree.working)
    (hleads : ∀ directory, tree.Leads directory (path.splitOn '/') found →
      after.Leads directory (path.splitOn '/') found')
    (hlocate : tree.locate create path = .ok found) :
    after.locate false path = .ok found' := by
  obtain ⟨hpath, hne⟩ := isPath_of_locate hlocate
  rw [locate_of_isPath hpath hne] at hlocate ⊢
  rw [hworking]
  exact (hleads _ (leads_of_follow hlocate)).follow_eq

end

end

theorem writes_of_takes {before : FileTree} {path : Text} {found : Place} {place : List Text}
    (hlocate : before.locate true path = .ok found) (hfound : found.Takes place)
    (content : ByteArray) :
    before.Writes (before.put place (.file content)) path place content := by
  have hplace := noDirectory_of_takes hfound (holds_of_locate hlocate)
  have hreplaces := replaces_put hplace content
  have hleads := locate_of_leads hreplaces.working (fun _ => hreplaces.leads hfound) hlocate
  exact ⟨hreplaces, hleads, by rw [read, hleads]⟩

/-- A file is written, unless the path leads to the null device. -/
theorem writes_cases {before after : FileTree} {path : Text} {content : ByteArray}
    (h : before.write path content = .ok after) :
    (∃ place, before.Writes after path place content) ∨
      ∃ place, before.locate true path = .ok (.nullDevice place) ∧
        before.node? place = some .nullDevice ∧ after = before := by
  rw [write] at h
  split at h
  · next place old hfound =>
      obtain rfl := (permit_eq_ok_iff.mp h).2
      exact .inl ⟨place, writes_of_takes hfound rfl content⟩
  · next place hfound =>
      obtain rfl := (permit_eq_ok_iff.mp h).2
      exact .inl ⟨place, writes_of_takes hfound rfl content⟩
  · next place hfound =>
      obtain rfl := (permit_eq_ok_iff.mp h).2
      exact .inr ⟨place, hfound, holds_of_locate hfound, rfl⟩
  · cases h
  · cases h

end CoolLexer.FileTree
