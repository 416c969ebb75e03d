import CoolLexer.Proofs.Config.Document
import CoolLexer.Proofs.Config.Search
import CoolLexer.Proofs.FileSystem.Parents
import CoolLexer.Proofs.Text.Utf8

/-!
# Saving and loading a configuration

A configuration that is saved is loaded again as it was, unless it limits string values to length
zero, which only loading forbids. The directories that lead to its file are made where they are
missing. Where the configuration cannot be written as a document, no file changes. The null device
keeps nothing of a configuration, and a file that must not be read can still be written.
-/

namespace CoolLexer.Config

/-- What is loaded from a path after a configuration has been saved there. -/
def reload (config : Config) (path : Text) (machine : Machine) : Except Failure Config :=
  (machine.after (config.saveTo path)).result (loadFrom path)

/-- What comes of saving a configuration at a path, which leads to a place in the tree `made`, and
of loading it from there. -/
structure Saves (config : Config) (path : Text) (machine : Machine) (made : FileTree)
    (place : List Text) : Prop where
  succeeds : machine.result (config.saveTo path) = .ok () ↔
    config.lexer.maxStringLength ≤ 2 ^ 63 - 1
  leaves : machine.result (config.saveTo path) = .ok () → made.node? place ≠ some .nullDevice →
    ∃ content, config.toText? = some content ∧ machine.after (config.saveTo path) =
      { machine with files := made.put place (.file content.encode) }
  loads : machine.result (config.saveTo path) = .ok () → made.node? place ≠ some .nullDevice →
    made.refusal .read place = none →
    (config.reload path machine = .ok config ↔ 1 ≤ config.lexer.maxStringLength)
  refuses : machine.result (config.saveTo path) = .ok () → made.node? place ≠ some .nullDevice →
    made.refusal .read place = none → config.lexer.maxStringLength = 0 →
    config.reload path machine = .error .configZeroLength ∧
      Failure.configZeroLength.message =
        "Configuration error: lexer.max_string_length must be at least 1".toList
  unreadable : machine.result (config.saveTo path) = .ok () → ∀ cause,
    made.refusal .read place = some cause → config.reload path machine = .error (.io cause)
  discards : machine.result (config.saveTo path) = .ok () → made.node? place = some .nullDevice →
    machine.after (config.saveTo path) = { machine with files := made } ∧
      (made.refusal .read place = none → config.reload path machine = .ok {})
  fails : 2 ^ 63 - 1 < config.lexer.maxStringLength →
    machine.result (config.saveTo path) = .error .configTooLarge ∧
      machine.after (config.saveTo path) = { machine with files := made } ∧
      machine.files.Extends made
  keeps : 2 ^ 63 - 1 < config.lexer.maxStringLength → ∀ other bytes,
    machine.files.read other = .ok bytes →
    (machine.after (config.saveTo path)).files.read other = .ok bytes

theorem makeParent_eq (path : Text) (machine : Machine) :
    let parent := Path.ofComponents (Path.components path).dropLast
    machine.result (makeParent path) = (machine.files.makeDirectories parent).1 ∧
      machine.after (makeParent path) =
        { machine with files := (machine.files.makeDirectories parent).2 } := by
  intro parent
  rw [makeParent]
  split
  · next hparts =>
      rw [show parent = [] by simp only [parent, hparts]; rfl]
      exact ⟨rfl, rfl⟩
  · next hparts =>
      rw [show parent = [] by simp only [parent, hparts]; rfl]
      exact ⟨rfl, rfl⟩
  · exact ⟨rfl, rfl⟩

section
variable {machine : Machine} {config : Config} {path : Text} {made : FileTree} {place : List Text}

theorem makeParent_of_canWrite (h : machine.files.CanWrite path made place) :
    machine.result (makeParent path) = .ok () ∧
      machine.after (makeParent path) = { machine with files := made } := by
  obtain ⟨hresult, hafter⟩ := makeParent_eq path machine
  rw [hresult, hafter, h.makeDirectories]
  exact ⟨rfl, rfl⟩

/-- That a path can be written to is exactly what making its parent directories, and then writing
to it, takes. -/
theorem canWrite_iff : (∃ place, machine.files.CanWrite path made place) ↔
    machine.result (makeParent path) = .ok () ∧
      (machine.after (makeParent path)).files = made ∧
      ∃ content after, made.write path content = .ok after := by
  constructor
  · rintro ⟨place, h⟩
    obtain ⟨hresult, hafter⟩ := makeParent_of_canWrite h
    refine ⟨hresult, ?_, .empty, h.exists_write .empty⟩
    rw [hafter]
  · rintro ⟨hresult, hafter, content, after, hwrite⟩
    obtain ⟨hresult', hafter'⟩ := makeParent_eq path machine
    rw [hresult'] at hresult
    rw [hafter'] at hafter
    exact FileTree.canWrite_of_write (Prod.ext hresult hafter) hwrite

theorem saveTo_of_none (h : machine.files.CanWrite path made place)
    (htext : config.toText? = none) :
    machine.result (config.saveTo path) = .error .configTooLarge ∧
      machine.after (config.saveTo path) = { machine with files := made } := by
  obtain ⟨hresult, hafter⟩ := makeParent_of_canWrite h
  rw [saveTo, Machine.result_bind, Machine.after_bind, hresult, hafter]
  simp only [htext]
  exact ⟨rfl, rfl⟩

theorem saveTo_of_some {content : Text} {files : FileTree}
    (h : machine.files.CanWrite path made place) (htext : config.toText? = some content)
    (hwrite : made.write path content.encode = .ok files) :
    machine.result (config.saveTo path) = .ok () ∧
      machine.after (config.saveTo path) = { machine with files } := by
  obtain ⟨hparent, hmade⟩ := makeParent_of_canWrite h
  have hwrite' : FileTree.write { machine with files := made }.files path content.encode =
      .ok files := hwrite
  obtain ⟨hresult, hafter⟩ := Machine.writeFile_of_ok hwrite'
  rw [saveTo, Machine.result_bind, Machine.after_bind, hparent, hmade]
  simp only [htext, Machine.result_bind, Machine.after_bind, hresult, hafter]
  exact ⟨rfl, rfl⟩

theorem saveTo_eq_ok_iff (h : machine.files.CanWrite path made place) :
    machine.result (config.saveTo path) = .ok () ↔ config.toText?.isSome = true := by
  cases htext : config.toText? with
  | none =>
      rw [(saveTo_of_none h htext).1]
      exact ⟨nofun, nofun⟩
  | some content =>
      obtain ⟨files, hwrite⟩ := h.exists_write content.encode
      exact ⟨fun _ => rfl, fun _ => (saveTo_of_some h htext hwrite).1⟩

theorem exists_saved (h : machine.files.CanWrite path made place)
    (hsaved : machine.result (config.saveTo path) = .ok ()) :
    ∃ content files, config.toText? = some content ∧
      made.write path content.encode = .ok files ∧
      machine.after (config.saveTo path) = { machine with files } := by
  obtain ⟨content, htext⟩ := Option.isSome_iff_exists.mp ((saveTo_eq_ok_iff h).mp hsaved)
  obtain ⟨files, hwrite⟩ := h.exists_write content.encode
  exact ⟨content, files, htext, hwrite, (saveTo_of_some h htext hwrite).2⟩

theorem after_saveTo_of_file (h : machine.files.CanWrite path made place)
    (hsaved : machine.result (config.saveTo path) = .ok ())
    (hnode : made.node? place ≠ some .nullDevice) :
    ∃ content, config.toText? = some content ∧ machine.after (config.saveTo path) =
      { machine with files := made.put place (.file content.encode) } := by
  obtain ⟨content, files, htext, hwrite, hafter⟩ := exists_saved h hsaved
  obtain rfl := Except.ok.inj (hwrite.symm.trans (h.writes hnode content.encode).1)
  exact ⟨content, htext, hafter⟩

theorem after_saveTo_of_nullDevice (h : machine.files.CanWrite path made place)
    (hsaved : machine.result (config.saveTo path) = .ok ())
    (hnode : made.node? place = some .nullDevice) :
    machine.after (config.saveTo path) = { machine with files := made } := by
  obtain ⟨content, files, -, hwrite, hafter⟩ := exists_saved h hsaved
  obtain rfl := Except.ok.inj (hwrite.symm.trans (h.write_nullDevice hnode content.encode))
  exact hafter

theorem result_loadFrom_of_permit {content : Text} (hexists : machine.files.pathExists path = true)
    (hread : machine.files.read path = machine.files.permit .read place content.encode) :
    machine.result (loadFrom path) =
      match machine.files.refusal .read place with
      | some cause => .error (.io cause)
      | none => read content := by
  rw [result_loadFrom, if_pos hexists, hread, FileTree.permit]
  cases machine.files.refusal .read place with
  | some cause => rfl
  | none =>
      have hdecode : FileError.decode content.encode = .ok content := by
        rw [FileError.decode, Text.decode?_encode]
      simp only [bind, Except.bind, hdecode]

theorem read_of_toText? {content : Text} (h : config.toText? = some content) :
    read content = if config.isValid then .ok config else .error .configZeroLength := by
  rw [read, config.ofText_of_toText? h]

/-- What has been saved in a file is loaded, subject to the check that only loading makes. -/
theorem reload_of_file (h : machine.files.CanWrite path made place)
    (hsaved : machine.result (config.saveTo path) = .ok ())
    (hnode : made.node? place ≠ some .nullDevice) :
    config.reload path machine =
      match made.refusal .read place with
      | some cause => .error (.io cause)
      | none => if config.isValid then .ok config else .error .configZeroLength := by
  obtain ⟨content, htext, hafter⟩ := after_saveTo_of_file h hsaved hnode
  have hwrites := (h.writes hnode content.encode).2
  have hexists : (made.put place (.file content.encode)).pathExists path = true := by
    rw [FileTree.pathExists, hwrites.leads]
  rw [reload, hafter, ← read_of_toText? htext]
  exact result_loadFrom_of_permit hexists hwrites.reads

theorem reload_of_nullDevice (h : machine.files.CanWrite path made place)
    (hsaved : machine.result (config.saveTo path) = .ok ())
    (hnode : made.node? place = some .nullDevice) :
    config.reload path machine =
      match made.refusal .read place with
      | some cause => .error (.io cause)
      | none => .ok {} := by
  have hlocate := h.locate_nullDevice hnode false
  -- An empty document leaves every value as it is by default.
  have hempty : read [] = .ok {} := rfl
  rw [reload, after_saveTo_of_nullDevice h hsaved hnode, ← hempty]
  refine result_loadFrom_of_permit ?_ ?_
  · rw [FileTree.pathExists, hlocate]
  · rw [FileTree.read, hlocate]
    rfl

theorem toText?_eq_none (h : 2 ^ 63 - 1 < config.lexer.maxStringLength) :
    config.toText? = none := by
  rw [← Option.not_isSome_iff_eq_none, config.toText?_isSome_iff]
  exact Nat.not_le.mpr h

end

end CoolLexer.Config
