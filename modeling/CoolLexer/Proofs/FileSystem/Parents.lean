import CoolLexer.Proofs.FileSystem.Directories
import CoolLexer.Proofs.FileSystem.Parts
import Mathlib.Data.List.Induction

/-!
# The directories that lead to a place

Along a path, every directory that is missing can be made where one stands, and then entered. Making
a directory goes about it from the end of the path, and comes to the same tree.
-/

namespace CoolLexer.FileTree

open CoolLexer.Path (IsNormal Matters ofComponents)

/-- Going along the parts of a path from one directory to another. Those that are missing are made
on the way, which changes the tree. -/
inductive Makes : FileTree → List Text → List Text → FileTree → List Text → Prop
  | here (tree : FileTree) (directory : List Text) : Makes tree directory [] tree directory
  | stay {tree made : FileTree} {directory rest last : List Text} {part : Text} :
      part = [] ∨ part = ['.'] → Makes tree directory rest made last →
      Makes tree directory (part :: rest) made last
  | up {tree made : FileTree} {directory rest last : List Text} :
      Makes tree directory.dropLast rest made last →
      Makes tree directory (['.', '.'] :: rest) made last
  | enter {tree made : FileTree} {directory rest last : List Text} {part : Text} :
      IsName part → tree.look (directory ++ [part]) = .ok (some .directory) →
      Makes tree (directory ++ [part]) rest made last → Makes tree directory (part :: rest) made last
  | make {tree made : FileTree} {directory rest last : List Text} {part : Text} :
      IsName part → tree.look (directory ++ [part]) = .ok none →
      tree.refusal .make (directory ++ [part]) = none →
      Makes (tree.put (directory ++ [part]) .directory) (directory ++ [part]) rest made last →
      Makes tree directory (part :: rest) made last

theorem matters_iff {part : Text} : Matters part ↔ ¬(part = [] ∨ part = ['.']) := not_or.symm

section
variable {tree made : FileTree} {directory parts rest last : List Text}

theorem Makes.extends (h : tree.Makes directory parts made last) : tree.Extends made := by
  induction h with
  | here => exact .refl _
  | stay _ _ ih | up _ ih | enter _ _ _ ih => exact ih
  | make _ hlook _ _ ih => exact (extends_put (look_eq_ok_iff.mp hlook).2).trans ih

theorem Makes.split {front back : List Text} (h : tree.Makes directory (front ++ back) made last) :
    ∃ middle place, tree.Makes directory front middle place ∧
      middle.Makes place back made last := by
  induction front generalizing tree directory with
  | nil => exact ⟨tree, directory, .here tree directory, h⟩
  | cons part front ih =>
      cases h with
      | stay hstay h =>
          obtain ⟨middle, place, hfront, hback⟩ := ih h
          exact ⟨middle, place, .stay hstay hfront, hback⟩
      | up h =>
          obtain ⟨middle, place, hfront, hback⟩ := ih h
          exact ⟨middle, place, .up hfront, hback⟩
      | enter hname hlook h =>
          obtain ⟨middle, place, hfront, hback⟩ := ih h
          exact ⟨middle, place, .enter hname hlook hfront, hback⟩
      | make hname hlook hmake h =>
          obtain ⟨middle, place, hfront, hback⟩ := ih h
          exact ⟨middle, place, .make hname hlook hmake hfront, hback⟩

theorem Makes.append {middle : FileTree} {place back : List Text}
    (h : tree.Makes directory parts middle place) (h' : middle.Makes place back made last) :
    tree.Makes directory (parts ++ back) made last := by
  induction h with
  | here => exact h'
  | stay hstay _ ih => exact .stay hstay (ih h')
  | up _ ih => exact .up (ih h')
  | enter hname hlook _ ih => exact .enter hname hlook (ih h')
  | make hname hlook hmake _ ih => exact .make hname hlook hmake (ih h')

/-- Parts that lead nowhere make no difference. -/
theorem makes_filter_iff :
    tree.Makes directory (parts.filter (Matters ·)) made last ↔
      tree.Makes directory parts made last := by
  constructor
  · intro h
    induction parts generalizing tree directory with
    | nil => exact h
    | cons part parts ih =>
        by_cases hmatters : Matters part
        · rw [List.filter_cons_of_pos (by simpa using hmatters)] at h
          have hsplit : tree.Makes directory ([part] ++ parts.filter (Matters ·)) made last := h
          obtain ⟨middle, place, hpart, hrest⟩ := hsplit.split
          exact hpart.append (ih hrest)
        · rw [List.filter_cons_of_neg (by simpa using hmatters)] at h
          exact .stay (not_not.mp (mt matters_iff.mpr hmatters)) (ih h)
  · intro h
    induction h with
    | here tree directory => exact .here tree directory
    | stay hstay _ ih =>
        rwa [List.filter_cons_of_neg (by simpa using matters_iff.not.mpr (not_not.mpr hstay))]
    | up _ ih =>
        rw [List.filter_cons_of_pos (by decide)]
        exact .up ih
    | enter hname hlook _ ih =>
        rw [List.filter_cons_of_pos (by simpa using matters_iff.mpr hname.moves)]
        exact .enter hname hlook ih
    | make hname hlook hmake _ ih =>
        rw [List.filter_cons_of_pos (by simpa using matters_iff.mpr hname.moves)]
        exact .make hname hlook hmake ih

/-- In the tree that has been made the way leads where it went. -/
theorem Makes.follow_made {create : Bool} {back : List Text}
    (h : tree.Makes directory parts made last)
    (hback : create = true → back.all List.isEmpty = false) :
    made.follow create directory (parts ++ back) = made.follow create last back := by
  have hslash (rest : List Text) :
      (create && !(rest ++ back).isEmpty && (rest ++ back).all List.isEmpty) = false := by
    cases create with
    | false => rfl
    | true => simp [hback rfl]
  induction h with
  | here => rfl
  | stay hstay _ ih => rw [List.cons_append, follow, if_pos (by simpa using hstay), ih]
  | up _ ih => rw [List.cons_append, follow, if_neg (by decide), if_pos rfl, ih]
  | enter hname hlook h ih =>
      rw [List.cons_append, follow_of_isName hname (hslash _), h.extends.look_eq hlook, ih]
  | @make tree made directory rest last part hname hlook _ h ih =>
      obtain ⟨hrefusal, hnode⟩ := look_eq_ok_iff.mp hlook
      have hput : (tree.put (directory ++ [part]) .directory).look (directory ++ [part]) =
          .ok (some .directory) :=
        look_eq_ok_iff.mpr ⟨hrefusal, node?_put_self tree (List.concat_ne_nil _ _) _⟩
      rw [List.cons_append, follow_of_isName hname (hslash _), h.extends.look_eq hput, ih]

/-- Where something is missing on the way, the tree has no place for what is behind it. -/
theorem Makes.eq_or_notFound (h : tree.Makes directory parts made last) :
    made = tree ∨
      ∀ back ≠ [], tree.follow false directory (parts ++ back) = .error .notFound := by
  induction h with
  | here => exact .inl rfl
  | stay hstay _ ih =>
      refine ih.imp_right fun hmissing back hback => ?_
      rw [List.cons_append, follow, if_pos (by simpa using hstay), hmissing back hback]
  | up _ ih =>
      refine ih.imp_right fun hmissing back hback => ?_
      rw [List.cons_append, follow, if_neg (by decide), if_pos rfl, hmissing back hback]
  | enter hname hlook _ ih =>
      refine ih.imp_right fun hmissing back hback => ?_
      rw [List.cons_append, follow_of_isName hname rfl, hlook]
      exact hmissing back hback
  | make hname hlook _ _ _ =>
      refine .inr fun back hback => ?_
      rw [List.cons_append, follow_of_isName hname rfl, hlook]
      exact if_neg (by simp [hback])

theorem ensureDirectory_of_directory {path : Text} {place : List Text}
    (h : tree.locate false path = .ok (.directory place)) :
    tree.ensureDirectory path = (.ok (), tree) := by
  rw [ensureDirectory, makeDirectory, isDirectory, h]
  rfl

/-- The last directory of a way is made where the others are there. -/
theorem ensureDirectory_of_makes {path part : Text}
    (hlocate : tree.locate false path = tree.follow false directory [part])
    (h : tree.Makes directory [part] made last) : tree.ensureDirectory path = (.ok (), made) := by
  cases h with
  | stay hstay h =>
      cases h
      rw [follow, if_pos (by simpa using hstay), follow] at hlocate
      exact ensureDirectory_of_directory hlocate
  | up h =>
      cases h
      exact ensureDirectory_of_directory (hlocate.trans rfl)
  | enter hname hlook h =>
      cases h
      rw [follow_of_isName hname rfl, hlook] at hlocate
      exact ensureDirectory_of_directory hlocate
  | make hname hlook hmake h =>
      cases h
      rw [follow_of_isName hname rfl, hlook] at hlocate
      have hfree : tree.locate false path = .ok (.free (directory ++ [part])) := hlocate
      rw [ensureDirectory, makeDirectory, hfree]
      simp only [permit, hmake]

end

/-- The directory at which a path with the given parts starts. -/
def start (tree : FileTree) (parts : List Text) : List Text :=
  if parts.head? = some ['/'] then [] else tree.working

/-- The parts of a path behind the root, if it starts there. -/
def behindRoot (parts : List Text) : List Text :=
  if parts.head? = some ['/'] then parts.tail else parts

theorem IsPath.of_sublist {path path' : Text} (h : IsPath path) (hsublist : path'.Sublist path) :
    IsPath path' where
  noNul hmem := h.noNul (hsublist.subset hmem)
  short := Nat.lt_of_le_of_lt (Text.byteLength_le_of_sublist hsublist) h.short

section
variable {tree made : FileTree} {directory parts rest last : List Text}

theorem locate_ofComponents (hnormal : IsNormal parts) (hpath : IsPath (ofComponents parts))
    (hne : parts ≠ []) :
    tree.locate false (ofComponents parts) =
      tree.follow false (start tree parts) (behindRoot parts) := by
  cases parts with
  | nil => exact absurd rfl hne
  | cons first rest =>
      have hslash : ∀ part ∈ rest, '/' ∉ part := fun part hpart => (hnormal.2 part hpart).2
      rcases hnormal.1 with rfl | ⟨hfirst, hnone⟩
      · have hhead : (ofComponents (['/'] :: rest)).head? = some '/' := by
          rw [Path.ofComponents_root]
          rfl
        have hnonempty : ofComponents (['/'] :: rest) ≠ [] := by
          rw [Path.ofComponents_root]
          exact List.cons_ne_nil _ _
        rw [locate_of_isPath hpath hnonempty, if_pos hhead]
        by_cases hrest : rest = []
        · rw [hrest]
          rfl
        · rw [Path.splitOn_ofComponents_root hslash hrest]
          rfl
      · have hroot := Path.ne_root_of_slash_notMem hnone
        have hhead : (ofComponents (first :: rest)).head? ≠ some '/' := by
          rw [Path.ofComponents_cons hroot, List.head?_append_of_ne_nil _ hfirst]
          exact fun hslash => hnone (List.mem_of_head? hslash)
        have hnonempty : ofComponents (first :: rest) ≠ [] := by
          rw [Path.ofComponents_cons hroot]
          simp [hfirst]
        have hstart : (first :: rest).head? ≠ some ['/'] := fun heq => hroot (Option.some.inj heq)
        rw [locate_of_isPath hpath hnonempty, if_neg hhead, Path.splitOn_ofComponents hnone hslash,
          start, behindRoot, if_neg hstart, if_neg hstart]

theorem start_concat {part : Text} (h : parts ++ [part] ≠ [['/']]) :
    start tree (parts ++ [part]) = start tree parts := by
  cases parts with
  | nil =>
      have hpart : part ≠ ['/'] := fun heq => h (congrArg (fun part => [part]) heq)
      simp [start, hpart]
  | cons first rest => rfl

theorem behindRoot_concat {part : Text} (h : parts ++ [part] ≠ [['/']]) :
    behindRoot (parts ++ [part]) = behindRoot parts ++ [part] := by
  cases parts with
  | nil =>
      have hpart : part ≠ ['/'] := fun heq => h (congrArg (fun part => [part]) heq)
      simp [behindRoot, hpart]
  | cons first rest =>
      by_cases hroot : first = ['/']
      · simp [behindRoot, hroot]
      · simp [behindRoot, hroot]

/-- Where the directories in front of the last one have been made, only that one is left. -/
theorem Makes.locate_concat {middle : FileTree} {part : Text}
    (h : tree.Makes (start tree parts) (behindRoot parts) middle last)
    (hnormal : IsNormal (parts ++ [part])) (hpath : IsPath (ofComponents (parts ++ [part])))
    (hroot : parts ++ [part] ≠ [['/']]) :
    middle.locate false (ofComponents (parts ++ [part])) = middle.follow false last [part] := by
  rw [locate_ofComponents hnormal hpath (List.concat_ne_nil part parts), start_concat hroot,
    behindRoot_concat hroot, start, h.extends.working]
  exact h.follow_made fun hcreate => Bool.noConfusion hcreate

/-- Making the directories from the end of a path is making them along it. -/
theorem ensureAll_of_makes (hnormal : IsNormal parts) (hpath : IsPath (ofComponents parts))
    (h : tree.Makes (start tree parts) (behindRoot parts) made last) :
    tree.ensureAll parts.reverse = (.ok (), made) := by
  induction parts using List.reverseRecOn generalizing made last with
  | nil =>
      cases h
      rfl
  | append_singleton parts part ih =>
      have hparts : (part :: parts.reverse).reverse = parts ++ [part] := by simp
      have hlocate : tree.locate false (ofComponents (parts ++ [part])) = _ :=
        locate_ofComponents hnormal hpath (List.concat_ne_nil part parts)
      rw [List.reverse_concat, ensureAll, hparts]
      by_cases hroot : parts ++ [part] = [['/']]
      · rw [hroot] at h hlocate ⊢
        cases h
        rw [ensureDirectory_of_directory hlocate]
      · rw [start_concat hroot, behindRoot_concat hroot] at h hlocate
        obtain ⟨middle, place, hfront, hlast⟩ := h.split
        have hmake := ensureDirectory_of_makes (hfront.locate_concat hnormal hpath hroot) hlast
        -- Where the directories in front are there, only the last one is made. Else that fails at
        -- first, and they are made before it.
        rcases hfront.eq_or_notFound with hsame | hmissing
        · rw [← hsame, hmake]
        · have hnone := hlocate.trans (hmissing [part] (List.cons_ne_nil part []))
          have hfails : tree.ensureDirectory (ofComponents (parts ++ [part])) =
              (.error .notFound, tree) := by
            rw [ensureDirectory, makeDirectory, isDirectory, hnone]
            rfl
          have hprefix := (Path.ofComponents_prefix_concat hnormal).sublist
          rw [hfails, ih hnormal.of_concat (hpath.of_sublist hprefix) hfront]
          exact hmake

theorem makeDirectories_of_makes (hnormal : IsNormal parts) (hpath : IsPath (ofComponents parts))
    (h : tree.Makes (start tree parts) (behindRoot parts) made last) :
    tree.makeDirectories (ofComponents parts) = (.ok (), made) := by
  rw [makeDirectories, Path.components_ofComponents hnormal]
  exact ensureAll_of_makes hnormal hpath h

end

/-- A path can be written to: the parts in front of its last one lead to a directory, with those
made that are missing, and there the last part names no directory. -/
structure CanWrite (tree : FileTree) (path : Text) (made : FileTree) (place : List Text) :
    Prop where
  isPath : IsPath path
  way : ∃ parents directory name, path.splitOn '/' = parents ++ [name] ∧ IsName name ∧
    tree.Makes (if path.head? = some '/' then [] else tree.working) parents made directory ∧
    place = directory ++ [name]
  target : ∃ node, made.look place = .ok node ∧ node ≠ some .directory
  permitted : made.refusal .write place = none

/-- What is found at the end of a way is no directory, and is at a place. -/
def Place.IsAt : Place → List Text → Prop
  | directory _, _ => False
  | file path _, place | nullDevice path, place | free path, place => path = place

section
variable {tree made : FileTree} {path : Text} {place : List Text}

theorem takes_of_isAt {found : Place} (hat : found.IsAt place) (hholds : found.Holds tree)
    (hnode : tree.node? place ≠ some .nullDevice) : found.Takes place := by
  cases found with
  | directory => exact hat.elim
  | file | free => exact hat
  | nullDevice =>
      cases hat
      exact absurd hholds hnode

theorem eq_nullDevice_of_isAt {found : Place} (hat : found.IsAt place) (hholds : found.Holds tree)
    (hnode : tree.node? place = some .nullDevice) : found = .nullDevice place := by
  cases found with
  | directory => exact hat.elim
  | file =>
      cases hat
      cases hholds.symm.trans hnode
  | nullDevice => rw [show _ = place from hat]
  | free =>
      cases hat
      cases hholds.symm.trans hnode

/-- The components of a path whose last part is a name are those of the directories in front of it,
and the name. -/
theorem exists_components {parents : List Text} {name : Text} (tree : FileTree)
    (hparts : path.splitOn '/' = parents ++ [name]) (hmatters : Matters name) :
    ∃ parts, Path.components path = parts ++ [name] ∧ ∀ made last,
      tree.Makes (start tree parts) (behindRoot parts) made last ↔
        tree.Makes (if path.head? = some '/' then [] else tree.working) parents made last := by
  have hslash {part : Text} (hpart : part ∈ parents ++ [name]) : '/' ∉ part :=
    Path.slash_notMem_of_mem_splitOn (hparts ▸ hpart)
  cases parents with
  | nil =>
      have hhead : path.head? ≠ some '/' := fun hhead =>
        hmatters.1 ((Path.head?_eq_slash_iff hparts).mp hhead).1
      rw [if_neg hhead]
      exact ⟨[], Path.components_of_splitOn hparts hmatters.1, fun _ _ => Iff.rfl⟩
  | cons first parents =>
      rw [List.cons_append] at hparts
      have hrest : parents ++ [name] ≠ [] := List.concat_ne_nil name parents
      have hfilter : (parents ++ [name]).filter (Matters ·) =
          parents.filter (Matters ·) ++ [name] := by
        simp [List.filter_append, hmatters]
      by_cases hfirst : first = []
      · subst hfirst
        have hhead := (Path.head?_eq_slash_iff hparts).mpr ⟨rfl, hrest⟩
        have hpath : path ≠ [] := by
          rintro rfl
          cases hhead
        have hcomponents := Path.components_of_splitOn_root hparts hpath
        rw [hfilter] at hcomponents
        refine ⟨['/'] :: parents.filter (Matters ·), hcomponents, fun made last => ?_⟩
        have hiff : tree.Makes [] (([] :: parents).filter (Matters ·)) made last ↔
            tree.Makes [] ([] :: parents) made last := makes_filter_iff
        rw [if_pos hhead, ← hiff]
        rfl
      · have hhead : path.head? ≠ some '/' := fun hhead =>
          hfirst ((Path.head?_eq_slash_iff hparts).mp hhead).1
        have hroot : (first :: parents.filter (Matters ·)).head? ≠ some ['/'] := fun heq =>
          Path.ne_root_of_slash_notMem (hslash List.mem_cons_self) (Option.some.inj heq)
        have hcomponents := Path.components_of_splitOn hparts hfirst
        rw [hfilter] at hcomponents
        refine ⟨first :: parents.filter (Matters ·), hcomponents, fun made last => ?_⟩
        have hiff : tree.Makes tree.working ((first :: parents).filter (Matters ·)) made last ↔
            tree.Makes tree.working (first :: parents) made last := makes_filter_iff
        rw [start, behindRoot, if_neg hroot, if_neg hroot, if_neg hhead, ← makes_filter_iff, ← hiff]
        simp [List.filter_cons]

theorem CanWrite.extends (h : tree.CanWrite path made place) : tree.Extends made := by
  obtain ⟨_, _, _, -, -, hmakes, -⟩ := h.way
  exact hmakes.extends

theorem CanWrite.makeDirectories (h : tree.CanWrite path made place) :
    tree.makeDirectories (ofComponents (Path.components path).dropLast) = (.ok (), made) := by
  obtain ⟨parents, directory, name, hparts, hname, hmakes, -⟩ := h.way
  obtain ⟨parts, hcomponents, hiff⟩ := exists_components tree hparts (matters_iff.mpr hname.moves)
  have hnormal := Path.isNormal_components path
  have hsublist := Path.ofComponents_components_sublist path
  rw [hcomponents] at hnormal hsublist ⊢
  have hpath := h.isPath.of_sublist
    ((Path.ofComponents_prefix_concat hnormal).sublist.trans hsublist)
  rw [List.dropLast_concat]
  exact makeDirectories_of_makes hnormal.of_concat hpath ((hiff _ _).mpr hmakes)

theorem CanWrite.locate (h : tree.CanWrite path made place) :
    ∃ found, made.locate true path = .ok found ∧ found.IsAt place := by
  obtain ⟨parents, directory, name, hparts, hname, hmakes, rfl⟩ := h.way
  have hmatters : Matters name := matters_iff.mpr hname.moves
  have hne : path ≠ [] := by
    rintro rfl
    have hlast := congrArg List.getLast? hparts
    rw [List.splitOn_nil, List.getLast?_concat] at hlast
    exact hmatters.1 (Option.some.inj hlast).symm
  have hname' : true = true → [name].all List.isEmpty = false := by
    intro _
    simp [hmatters.1]
  rw [locate_of_isPath h.isPath hne, hmakes.extends.working, hparts, hmakes.follow_made hname',
    follow_of_isName hname (by simp)]
  obtain ⟨node, hlook, hnode⟩ := h.target
  rw [hlook]
  cases node with
  | none => exact ⟨_, rfl, rfl⟩
  | some node =>
      cases node with
      | directory => exact absurd rfl hnode
      | file content => exact ⟨_, rfl, rfl⟩
      | nullDevice => exact ⟨_, rfl, rfl⟩

/-- A file is made or replaced where the path does not lead to the null device. -/
theorem CanWrite.writes (h : tree.CanWrite path made place)
    (hnode : made.node? place ≠ some .nullDevice) (content : ByteArray) :
    made.write path content = .ok (made.put place (.file content)) ∧
      made.Writes (made.put place (.file content)) path place content := by
  obtain ⟨found, hlocate, hat⟩ := h.locate
  have htakes := takes_of_isAt hat (holds_of_locate hlocate) hnode
  refine ⟨?_, writes_of_takes hlocate htakes content⟩
  rw [FileTree.write, hlocate]
  cases found with
  | directory | nullDevice => exact htakes.elim
  | file | free =>
      cases htakes
      exact permit_eq_ok_iff.mpr ⟨h.permitted, rfl⟩

theorem CanWrite.locate_nullDevice (h : tree.CanWrite path made place)
    (hnode : made.node? place = some .nullDevice) (create : Bool) :
    made.locate create path = .ok (.nullDevice place) := by
  obtain ⟨found, hlocate, hat⟩ := h.locate
  obtain rfl := eq_nullDevice_of_isAt hat (holds_of_locate hlocate) hnode
  cases create with
  | true => exact hlocate
  | false => exact locate_of_leads rfl (fun _ hleads => hleads) hlocate

theorem CanWrite.write_nullDevice (h : tree.CanWrite path made place)
    (hnode : made.node? place = some .nullDevice) (content : ByteArray) :
    made.write path content = .ok made := by
  rw [FileTree.write, h.locate_nullDevice hnode]
  exact permit_eq_ok_iff.mpr ⟨h.permitted, rfl⟩

theorem CanWrite.exists_write (h : tree.CanWrite path made place) (content : ByteArray) :
    ∃ after, made.write path content = .ok after := by
  by_cases hnode : made.node? place = some .nullDevice
  · exact ⟨made, h.write_nullDevice hnode content⟩
  · exact ⟨_, (h.writes hnode content).1⟩

/-- A way to a place that is no directory ends with its name in a directory. -/
theorem Leads.exists_name {directory parts : List Text} {found : Place}
    (h : tree.Leads directory parts found) (hat : found.IsAt place) :
    ∃ parents last name, parts = parents ++ [name] ∧ IsName name ∧
      tree.Leads directory parents (.directory last) ∧ place = last ++ [name] ∧
      ∃ node, tree.look place = .ok node ∧ node ≠ some .directory := by
  induction h with
  | here => exact hat.elim
  | stay hstay _ ih =>
      obtain ⟨parents, last, name, rfl, hname, hleads, hplace⟩ := ih hat
      exact ⟨_ :: parents, last, name, rfl, hname, .stay hstay hleads, hplace⟩
  | up _ ih =>
      obtain ⟨parents, last, name, rfl, hname, hleads, hplace⟩ := ih hat
      exact ⟨_ :: parents, last, name, rfl, hname, .up hleads, hplace⟩
  | enter hpart hlook _ ih =>
      obtain ⟨parents, last, name, rfl, hname, hleads, hplace⟩ := ih hat
      exact ⟨_ :: parents, last, name, rfl, hname, .enter hpart hlook hleads, hplace⟩
  | file hname hlook | nullDevice hname hlook | free hname hlook =>
      cases hat
      exact ⟨[], _, _, rfl, hname, .here _, rfl, _, hlook, nofun⟩

theorem Leads.makes {directory parts last : List Text}
    (h : tree.Leads directory parts (.directory last)) : tree.Makes directory parts tree last := by
  generalize hfound : Place.directory last = found at h
  induction h with
  | here =>
      cases hfound
      exact .here tree _
  | stay hstay _ ih => exact .stay hstay (ih hfound)
  | up _ ih => exact .up (ih hfound)
  | enter hname hlook _ ih => exact .enter hname hlook (ih hfound)
  | file => cases hfound
  | nullDevice => cases hfound
  | free => cases hfound

theorem Leads.makes_free {directory parts : List Text}
    (h : tree.Leads directory parts (.free place)) (hmake : tree.refusal .make place = none) :
    tree.Makes directory parts (tree.put place .directory) place := by
  generalize hfound : Place.free place = found at h
  induction h with
  | here => cases hfound
  | stay hstay _ ih => exact .stay hstay (ih hfound)
  | up _ ih => exact .up (ih hfound)
  | enter hname hlook _ ih => exact .enter hname hlook (ih hfound)
  | file => cases hfound
  | nullDevice => cases hfound
  | free hname hlook =>
      cases hfound
      exact .make hname hlook hmake (.here _ _)

/-- Where the last directory of a way can be made, it is made along the way. -/
theorem makes_of_ensureDirectory {directory parts : List Text}
    (hlocate : tree.locate false path = tree.follow false directory parts)
    (h : tree.ensureDirectory path = (.ok (), made)) :
    ∃ last, tree.Makes directory parts made last := by
  rw [ensureDirectory, makeDirectory, isDirectory, hlocate] at h
  split at h
  · next after hafter =>
      cases h
      split at hafter
      · next free hfollow =>
          obtain ⟨hmake, rfl⟩ := permit_eq_ok_iff.mp hafter
          exact ⟨free, (leads_of_follow hfollow).makes_free hmake⟩
      · cases hafter
      · cases hafter
  · split at h
    · next last hfollow =>
        cases h
        exact ⟨last, (leads_of_follow hfollow).makes⟩
    · cases h

theorem makes_of_ensureAll {parts : List Text} (hnormal : IsNormal parts)
    (hpath : IsPath (ofComponents parts)) (h : tree.ensureAll parts.reverse = (.ok (), made)) :
    ∃ last, tree.Makes (start tree parts) (behindRoot parts) made last := by
  induction parts using List.reverseRecOn generalizing made with
  | nil =>
      cases h
      exact ⟨tree.working, .here tree _⟩
  | append_singleton parts part ih =>
      have hparts : (part :: parts.reverse).reverse = parts ++ [part] := by simp
      have hlocate : tree.locate false (ofComponents (parts ++ [part])) = _ :=
        locate_ofComponents hnormal hpath (List.concat_ne_nil part parts)
      rw [List.reverse_concat, ensureAll, hparts] at h
      split at h
      · split at h
        · next middle hmiddle =>
            have hprefix := (Path.ofComponents_prefix_concat hnormal).sublist
            obtain ⟨place, hfront⟩ := ih hnormal.of_concat (hpath.of_sublist hprefix) hmiddle
            by_cases hroot : parts ++ [part] = [['/']]
            · obtain ⟨rfl, -⟩ := List.append_eq_singleton_iff.mp hroot |>.resolve_right
                fun hright => List.cons_ne_nil part [] hright.2
              cases hmiddle
              exact makes_of_ensureDirectory hlocate h
            · have hback := hfront.locate_concat hnormal hpath hroot
              obtain ⟨last, hlast⟩ := makes_of_ensureDirectory hback h
              rw [start_concat hroot, behindRoot_concat hroot]
              exact ⟨last, hfront.append hlast⟩
        · next hfailed => exact absurd h (hfailed _)
      · exact makes_of_ensureDirectory hlocate h

/-- Wherever making the parent directories and then writing succeeds, the path can be written to. -/
theorem canWrite_of_locate {found : Place}
    (hmake : tree.makeDirectories (ofComponents (Path.components path).dropLast) = (.ok (), made))
    (hlocate : made.locate true path = .ok found) (hat : found.IsAt place)
    (hpermitted : made.refusal .write place = none) : tree.CanWrite path made place := by
  obtain ⟨hpath, hne⟩ := isPath_of_locate hlocate
  rw [locate_of_isPath hpath hne] at hlocate
  obtain ⟨parents, last, name, hparts, hname, hleads, hplace, htarget⟩ :=
    (leads_of_follow hlocate).exists_name hat
  obtain ⟨parts, hcomponents, hiff⟩ := exists_components tree hparts (matters_iff.mpr hname.moves)
  have hnormal := Path.isNormal_components path
  have hsublist := Path.ofComponents_components_sublist path
  rw [hcomponents] at hnormal hsublist hmake
  have hpath' := hpath.of_sublist
    ((Path.ofComponents_prefix_concat hnormal).sublist.trans hsublist)
  rw [List.dropLast_concat, FileTree.makeDirectories,
    Path.components_ofComponents hnormal.of_concat] at hmake
  obtain ⟨directory, hmakes⟩ := makes_of_ensureAll hnormal.of_concat hpath' hmake
  have hway := (hiff _ _).mp hmakes
  -- The way that has been made leads to the directory of the file.
  have hsame : directory = last := by
    have hfollow : made.follow false _ (parents ++ []) = made.follow false directory [] :=
      hway.follow_made fun hcreate => Bool.noConfusion hcreate
    rw [← hway.extends.working, List.append_nil, hleads.follow_eq] at hfollow
    exact (Place.directory.inj (Except.ok.inj hfollow)).symm
  exact ⟨hpath, ⟨parents, last, name, hparts, hname, hsame ▸ hway, hplace⟩, htarget, hpermitted⟩

theorem canWrite_of_write {content : ByteArray} {after : FileTree}
    (hmake : tree.makeDirectories (ofComponents (Path.components path).dropLast) = (.ok (), made))
    (hwrite : made.write path content = .ok after) : ∃ place, tree.CanWrite path made place := by
  rw [write] at hwrite
  split at hwrite
  · next place old hlocate =>
      exact ⟨place, canWrite_of_locate hmake hlocate rfl (permit_eq_ok_iff.mp hwrite).1⟩
  · next place hlocate =>
      exact ⟨place, canWrite_of_locate hmake hlocate rfl (permit_eq_ok_iff.mp hwrite).1⟩
  · next place hlocate =>
      exact ⟨place, canWrite_of_locate hmake hlocate rfl (permit_eq_ok_iff.mp hwrite).1⟩
  · cases hwrite
  · cases hwrite

end

end CoolLexer.FileTree
