import CoolLexer.Text.Utf8

/-!
# Storage

What a run needs of the world around it: files by their paths, an input, and two outputs. Any monad
that offers this can carry out the commands.
-/

namespace CoolLexer

inductive FileError where
  | notFound
  | alreadyExists
  | notADirectory
  | isADirectory
  | nameTooLong
  | nulInPath
  | invalidText
  /-- A failure that the program does not tell apart, with its description. -/
  | other (description : Text)
deriving Repr, DecidableEq

def FileError.message : FileError → Text
  | notFound => "No such file or directory (os error 2)".toList
  | alreadyExists => "File exists (os error 17)".toList
  | notADirectory => "Not a directory (os error 20)".toList
  | isADirectory => "Is a directory (os error 21)".toList
  | nameTooLong => "File name too long (os error 36)".toList
  | nulInPath => "file name contained an unexpected NUL byte".toList
  | invalidText => "stream did not contain valid UTF-8".toList
  | other description => description

/-- Files, an input and two outputs. -/
class Storage (m : Type → Type) where
  pathExists : Text → m Bool
  readFile : Text → m (Except FileError ByteArray)
  /-- Makes a file with the given content, in place of the file at the path if there is one. -/
  writeFile : Text → Text → m (Except FileError Unit)
  /-- Makes a directory, and those that lead to it. -/
  makeDirectories : Text → m (Except FileError Unit)
  readInput : m (Except FileError ByteArray)
  /-- Writes to the output. Where this fails, the output may have taken a part of the text. -/
  write : Text → m (Except FileError Unit)
  /-- Writes to the output for messages. -/
  writeMessage : Text → m Unit

def FileError.decode (bytes : ByteArray) : Except FileError Text :=
  match Text.decode? bytes with
  | some text => .ok text
  | none => .error .invalidText

def Storage.readText [Monad m] [Storage m] (path : Text) : m (Except FileError Text) := do
  return (← Storage.readFile path) >>= FileError.decode

def Storage.readInputText [Monad m] [Storage m] : m (Except FileError Text) := do
  return (← Storage.readInput) >>= FileError.decode

end CoolLexer
