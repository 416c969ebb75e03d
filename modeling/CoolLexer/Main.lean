import CoolLexer.Command.Program

/-!
# Running the program

The storage of a real run is the file system and the standard streams.
-/

namespace CoolLexer

/-- What a failure of the system is to the program. -/
private def FileError.ofSystem : IO.Error → FileError
  | .noFileOrDirectory .. => .notFound
  | .noSuchThing .. => .notFound
  | .alreadyExists .. => .alreadyExists
  | .inappropriateType _ code _ => if code = 21 || code = -21 then .isADirectory else .notADirectory
  | e => .other (toString e).toList

private def attempt (action : IO α) : IO (Except FileError α) := do
  match ← action.toBaseIO with
  | .ok value => return .ok value
  | .error e => return .error (.ofSystem e)

instance : Storage IO where
  pathExists path := do
    if path.isEmpty || path.contains '\x00' then return false
    ((← IO.currentDir) / String.ofList path).pathExists
  readFile path := attempt (IO.FS.readBinFile (String.ofList path))
  writeFile path content := attempt (IO.FS.writeFile (String.ofList path) (String.ofList content))
  makeDirectories path :=
    if path.isEmpty then return .ok () else attempt (IO.FS.createDirAll (String.ofList path))
  readInput := attempt do (← IO.getStdin).readBinToEnd
  write text := attempt do
    let output ← IO.getStdout
    output.putStr (String.ofList text)
    output.flush
  writeMessage text := do (← IO.getStderr).putStr (String.ofList text)

private def environmentValue (name : String) : IO (Option Text) := do
  return (← IO.getEnv name).map String.toList

/-- The directories in which the user keeps configuration files. -/
private def configDirectories : IO ConfigDirectories := do
  let home := (← environmentValue "HOME").filter fun path => !path.isEmpty
  let configHome := (← environmentValue "XDG_CONFIG_HOME").filter fun path => path.head? = some '/'
  return { home, configHome := configHome <|> home.map (Path.join · ".config".toList) }

end CoolLexer

open CoolLexer in
def main (arguments : List String) : IO UInt32 := do
  let environment : Command.Environment := {
    config := ← environmentValue "COOLT_CONFIG"
    verbose := ← environmentValue "COOLT_VERBOSE"
    noColor := ← environmentValue "COOLT_NO_COLOR" }
  let status ← Command.run (m := IO) (← configDirectories) environment (arguments.map String.toList)
  return UInt32.ofNat status.code
