import CoolLexer.Config.Store
import CoolLexer.FileSystem.Tree
import Mathlib.Data.List.Find

/-!
# Where a configuration is loaded from

Without a given path, the first candidate at which there is something decides: a configuration there
is taken and an error there is returned. What is loaded never limits string values to length zero.
-/

namespace CoolLexer.Config

/-- The path of a file in a directory. -/
def fileIn (directory name : Text) : Text :=
  if directory = [] ∨ directory.getLast? = some '/' then directory ++ name
  else directory ++ '/' :: name

/-- The three places of a configuration file: in the working directory, below the home directory,
and below the directory for the configurations of programs. -/
def places (directories : ConfigDirectories) : List Text :=
  "coolt.toml".toList ::
    ((directories.home.map (fileIn · ".config/coolt/coolt.toml".toList)).toList ++
      (directories.configHome.map (fileIn · "coolt/coolt.toml".toList)).toList)

theorem join_eq_fileIn {name : Text} (h : name.head? ≠ some '/') (directory : Text) :
    Path.join directory name = fileIn directory name := by
  rw [Path.join, fileIn]
  by_cases hempty : directory = []
  · simp [hempty]
  · simp [hempty, h]

theorem exists_fileIn_eq_append (directory : Text) :
    ∃ front, ∀ name, fileIn directory name = front ++ name := by
  by_cases h : directory = [] ∨ directory.getLast? = some '/'
  · exact ⟨directory, fun name => if_pos h⟩
  · refine ⟨directory ++ ['/'], fun name => ?_⟩
    rw [fileIn, if_neg h, List.append_assoc]
    rfl

/-- A file in a directory inside another one is a file of the other, by a longer name. -/
theorem join_fileIn {inner name : Text} (hinner : inner ≠ []) (hlast : inner.getLast? ≠ some '/')
    (hname : name.head? ≠ some '/') (directory : Text) :
    Path.join (fileIn directory inner) name = fileIn directory (inner ++ '/' :: name) := by
  obtain ⟨front, hfront⟩ := exists_fileIn_eq_append directory
  have hend : (front ++ inner).getLast? = inner.getLast? := by
    rw [List.getLast?_append, Option.or_of_isSome (by simpa using hinner)]
  have hopen : ¬(front ++ inner = [] ∨ (front ++ inner).getLast? = some '/') := by
    rw [hend]
    simp [hinner, hlast]
  rw [join_eq_fileIn hname, hfront inner, hfront, fileIn, if_neg hopen, List.append_assoc]

theorem join_home (home : Text) :
    Path.join (Path.join (Path.join home ".config".toList) directoryName) fileName =
      fileIn home ".config/coolt/coolt.toml".toList := by
  have hdot : Path.join home ".config".toList = fileIn home ".config".toList :=
    join_eq_fileIn (by decide) home
  have hname : Path.join (fileIn home ".config".toList) directoryName =
      fileIn home ".config/coolt".toList := join_fileIn (by decide) (by decide) (by decide) home
  rw [hdot, hname]
  exact join_fileIn (by decide) (by decide) (by decide) home

theorem join_configHome (configHome : Text) :
    Path.join (Path.join configHome directoryName) fileName =
      fileIn configHome "coolt/coolt.toml".toList := by
  have hname : Path.join configHome directoryName = fileIn configHome "coolt".toList :=
    join_eq_fileIn (by decide) configHome
  rw [hname]
  exact join_fileIn (by decide) (by decide) (by decide) configHome

theorem candidates_eq_places (directories : ConfigDirectories) :
    candidates directories = places directories := by
  rw [candidates, places, Option.toList_map, Option.toList_map, funext join_home,
    funext join_configHome]
  rfl

section
variable (machine : Machine)

theorem result_loadFrom (path : Text) :
    machine.result (loadFrom path) =
      if machine.files.pathExists path = true then
        match machine.files.read path >>= FileError.decode with
        | .ok content => read content
        | .error cause => .error (.io cause)
      else .error (.configNotFound path) := by
  rw [loadFrom, Machine.result_bind, Machine.result_pathExists,
    Machine.after_pathExists]
  split
  · rw [Machine.result_bind, Machine.result_readText]
    cases machine.files.read path >>= FileError.decode <;> rfl
  · rfl

theorem result_firstExisting (paths : List Text) :
    machine.result (firstExisting paths) = paths.find? machine.files.pathExists := by
  induction paths with
  | nil => rfl
  | cons path rest ih =>
      rw [firstExisting, Machine.result_bind, Machine.result_pathExists,
    Machine.after_pathExists, List.find?_cons]
      cases machine.files.pathExists path with
      | true => rfl
      | false => exact ih

theorem after_firstExisting (paths : List Text) :
    machine.after (firstExisting paths) = machine := by
  induction paths with
  | nil => rfl
  | cons path rest ih =>
      rw [firstExisting, Machine.after_bind, Machine.result_pathExists,
    Machine.after_pathExists]
      cases machine.files.pathExists path with
      | true => rfl
      | false => exact ih

theorem result_load (directories : ConfigDirectories) :
    machine.result (load directories) =
      match (candidates directories).find? machine.files.pathExists with
      | some path => machine.result (loadFrom path)
      | none => .ok {} := by
  rw [load, Machine.result_bind, result_firstExisting, after_firstExisting]
  cases (candidates directories).find? machine.files.pathExists <;> rfl

end

section
variable {machine other : Machine}

/-- What is loaded from a path depends on that path only. -/
theorem result_loadFrom_congr {path : Text}
    (hexists : other.files.pathExists path = machine.files.pathExists path)
    (hread : other.files.read path = machine.files.read path) :
    other.result (loadFrom path) = machine.result (loadFrom path) := by
  rw [result_loadFrom, result_loadFrom, hexists, hread]

/-- What is loaded depends on which of the candidates exist, and on the content of the first. -/
theorem result_load_congr {directories : ConfigDirectories}
    (hexists : ∀ path ∈ candidates directories,
      other.files.pathExists path = machine.files.pathExists path)
    (hread : ∀ path, (candidates directories).find? machine.files.pathExists = some path →
      other.files.read path = machine.files.read path) :
    other.result (load directories) = machine.result (load directories) := by
  rw [result_load, result_load, List.find?_congr hexists]
  cases hfirst : (candidates directories).find? machine.files.pathExists with
  | none => rfl
  | some path =>
      exact result_loadFrom_congr (hexists path (List.mem_of_find?_eq_some hfirst))
        (hread path hfirst)

end

theorem isValid_iff (config : Config) :
    config.isValid = true ↔ 1 ≤ config.lexer.maxStringLength := by
  rw [isValid, decide_eq_true_iff, Nat.one_le_iff_ne_zero]

theorem one_le_of_read {content : Text} {config : Config} (h : read content = .ok config) :
    1 ≤ config.lexer.maxStringLength := by
  rw [read] at h
  split at h
  · cases h
  · next found _ =>
      split at h
      · next hvalid =>
          rw [← Except.ok.inj h]
          exact found.isValid_iff.mp hvalid
      · cases h

theorem one_le_of_loadFrom {machine : Machine} {path : Text} {config : Config}
    (h : machine.result (loadFrom path) = .ok config) : 1 ≤ config.lexer.maxStringLength := by
  rw [result_loadFrom] at h
  split at h
  · split at h
    · exact one_le_of_read h
    · cases h
  · cases h

theorem one_le_of_load {machine : Machine} {directories : ConfigDirectories} {config : Config}
    (h : machine.result (load directories) = .ok config) : 1 ≤ config.lexer.maxStringLength := by
  rw [result_load] at h
  split at h
  · exact one_le_of_loadFrom h
  · rw [← Except.ok.inj h]
    decide

end CoolLexer.Config
