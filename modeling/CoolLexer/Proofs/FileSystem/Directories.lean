import CoolLexer.Proofs.FileSystem.Write

/-!
# Making directories

Making a directory and those that lead to it adds directories to a tree and changes nothing that was
there. What could be read before is read after.
-/

namespace CoolLexer.FileTree

/-- The second tree holds what the first one holds, and at most directories besides. -/
structure Extends (before after : FileTree) : Prop where
  kept : ∀ place node, before.node? place = some node → after.node? place = some node
  added : ∀ place, before.node? place = none →
    after.node? place = none ∨ after.node? place = some .directory
  working : after.working = before.working
  refusal : after.refusal = before.refusal

theorem Extends.refl (tree : FileTree) : tree.Extends tree where
  kept _ _ h := h
  added _ h := .inl h
  working := rfl
  refusal := rfl

theorem Extends.trans {first second third : FileTree} (h : first.Extends second)
    (h' : second.Extends third) : first.Extends third where
  kept place node hnode := h'.kept place node (h.kept place node hnode)
  added place hnode := by
    rcases h.added place hnode with hfree | hmade
    · exact h'.added place hfree
    · exact .inr (h'.kept place _ hmade)
  working := h'.working.trans h.working
  refusal := h'.refusal.trans h.refusal

section
variable {tree : FileTree}

theorem extends_put {place : List Text} (h : tree.node? place = none) :
    tree.Extends (tree.put place .directory) := by
  have hroot : place ≠ [] := by
    rintro rfl
    cases h
  refine ⟨?_, ?_, rfl, rfl⟩
  · intro other node hnode
    have hother : other ≠ place := by
      rintro rfl
      rw [h] at hnode
      cases hnode
    rw [node?_put_of_ne tree hother, hnode]
  · intro other hnode
    by_cases hother : other = place
    · rw [hother, node?_put_self tree hroot]
      exact .inr rfl
    · rw [node?_put_of_ne tree hother]
      exact .inl hnode

theorem extends_of_makeDirectory {after : FileTree} {path : Text}
    (h : tree.makeDirectory path = .ok after) : tree.Extends after := by
  rw [makeDirectory] at h
  split at h
  · next place hlocate =>
      rw [← (permit_eq_ok_iff.mp h).2]
      exact extends_put (holds_of_locate hlocate)
  · cases h
  · cases h

theorem extends_ensureDirectory (tree : FileTree) (path : Text) :
    tree.Extends (tree.ensureDirectory path).2 := by
  rw [ensureDirectory]
  split
  · next after hmade => exact extends_of_makeDirectory hmade
  · exact .refl tree

theorem extends_ensureAll (tree : FileTree) (parts : List Text) :
    tree.Extends (tree.ensureAll parts).2 := by
  induction parts with
  | nil => exact .refl tree
  | cons part parents ih =>
      rw [ensureAll]
      split
      · split
        · next after hparents =>
            -- The directories on the way are made, and then the last one.
            have hextends : tree.Extends after := by
              rw [hparents] at ih
              exact ih
            exact hextends.trans (extends_ensureDirectory after _)
        · exact ih
      · exact extends_ensureDirectory tree _

theorem extends_makeDirectories (tree : FileTree) (path : Text) :
    tree.Extends (tree.makeDirectories path).2 :=
  extends_ensureAll tree _

theorem Extends.look_eq {after : FileTree} {place : List Text} {node : FileNode}
    (hextends : tree.Extends after) (h : tree.look place = .ok (some node)) :
    after.look place = .ok (some node) := by
  rw [look_eq_ok_iff] at h ⊢
  rw [hextends.refusal]
  exact ⟨h.1, hextends.kept _ _ h.2⟩

/-- What is found at the end of a way is no gap. -/
def Place.IsThere : Place → Prop
  | free _ => False
  | directory _ | file _ _ | nullDevice _ => True

theorem Leads.of_extends {after : FileTree} {directory parts : List Text} {found : Place}
    (hextends : tree.Extends after) (hfound : found.IsThere)
    (h : tree.Leads directory parts found) : after.Leads directory parts found := by
  induction h with
  | here => exact .here _
  | stay hstay _ ih => exact .stay hstay (ih hfound)
  | up _ ih => exact .up (ih hfound)
  | enter hname hlook _ ih => exact .enter hname (hextends.look_eq hlook) (ih hfound)
  | file hname hlook => exact .file hname (hextends.look_eq hlook)
  | nullDevice hname hlook => exact .nullDevice hname (hextends.look_eq hlook)
  | free => exact hfound.elim

theorem Extends.read_eq {after : FileTree} {path : Text} {content : ByteArray}
    (hextends : tree.Extends after) (h : tree.read path = .ok content) :
    after.read path = .ok content := by
  have hlocate {found : Place} (h : tree.locate false path = .ok found) (hfound : found.IsThere) :
      after.locate false path = .ok found :=
    locate_of_leads hextends.working (fun _ => Leads.of_extends hextends hfound) h
  rw [read] at h ⊢
  split at h
  · next place old hfound =>
      rw [hlocate hfound trivial]
      simpa only [permit, hextends.refusal] using h
  · next place hfound =>
      rw [hlocate hfound trivial]
      simpa only [permit, hextends.refusal] using h
  · next place hfound =>
      rw [permit] at h
      split at h <;> cases h
  · cases h
  · cases h

end

end CoolLexer.FileTree
