import CoolLexer.Failure
import CoolLexer.FileSystem.Path

/-!
# Stored configurations

A configuration is loaded from a given file, or from the first of three places where there is one.
An error in that file is not passed over in favour of a later place.
-/

namespace CoolLexer

/-- The directories in which configuration files are looked for after the working directory. -/
structure ConfigDirectories where
  home : Option Text := none
  configHome : Option Text := none
deriving Repr, DecidableEq

namespace Config

variable {m : Type → Type} [Monad m] [Storage m]

def fileName : Text := "coolt.toml".toList

/-- The name of the directory that holds the configuration file in a place for many programs. -/
def directoryName : Text := "coolt".toList

/-- The places where a configuration file is looked for, the first one first. -/
def candidates (directories : ConfigDirectories) : List Text :=
  fileName ::
    (directories.home.toList.map fun home =>
      Path.join (Path.join (Path.join home ".config".toList) directoryName) fileName) ++
    directories.configHome.toList.map fun configHome =>
      Path.join (Path.join configHome directoryName) fileName

/-- Reads a configuration that a run may use. -/
def read (content : Text) : Except Failure Config :=
  match ofText content with
  | .error cause => .error (.configMalformed cause)
  | .ok config => if config.isValid then .ok config else .error .configZeroLength

def loadFrom (path : Text) : m (Except Failure Config) := do
  if ← Storage.pathExists path then
    match ← Storage.readText path with
    | .ok content => return read content
    | .error cause => return .error (.io cause)
  else return .error (.configNotFound path)

/-- The first path of a list at which there is something. -/
def firstExisting : List Text → m (Option Text)
  | [] => return none
  | path :: rest => do
      if ← Storage.pathExists path then return some path else firstExisting rest

/-- Loads the configuration in the first of the usual places, or the defaults if there is none. -/
def load (directories : ConfigDirectories) : m (Except Failure Config) := do
  match ← firstExisting (candidates directories) with
  | some path => loadFrom path
  | none => return .ok {}

/-- Makes the directory that a path lies in, if the path has one. -/
def makeParent (path : Text) : m (Except FileError Unit) :=
  match Path.components path with
  | [] | [['/']] => return .ok ()
  | parts => Storage.makeDirectories (Path.ofComponents parts.dropLast)

def saveTo (config : Config) (path : Text) : m (Except Failure Unit) := do
  match ← makeParent path with
  | .error cause => return .error (.io cause)
  | .ok () =>
      match config.toText? with
      | none => return .error .configTooLarge
      | some content =>
          match ← Storage.writeFile path content with
          | .error cause => return .error (.io cause)
          | .ok () => return .ok ()

end Config

end CoolLexer
