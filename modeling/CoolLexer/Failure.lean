import CoolLexer.Config.Document
import CoolLexer.FileSystem.Storage

/-!
# Failures

Why a run ends without doing what it was asked to. Lexical errors are no failures: they are found in
the source and reported.
-/

namespace CoolLexer

inductive Failure where
  | configNotFound (path : Text)
  | configMalformed (cause : DocumentError)
  /-- The configuration limits string values to length zero. -/
  | configZeroLength
  /-- The limit on string values cannot be written in a configuration file. -/
  | configTooLarge
  | cannotRead (path : Text) (cause : FileError)
  | cannotWrite (path : Text) (cause : FileError)
  /-- The command line limits string values to length zero. -/
  | zeroLength
  | io (cause : FileError)
deriving Repr, DecidableEq

namespace Failure

def message : Failure → Text
  | configNotFound path =>
      "Configuration error: Configuration file not found: ".toList ++ path
  | configMalformed cause =>
      "Configuration error: Failed to parse configuration: ".toList ++ cause.message
  | configZeroLength =>
      "Configuration error: lexer.max_string_length must be at least 1".toList
  | configTooLarge =>
      "Configuration error: Failed to serialize configuration: ".toList ++
        "lexer.max_string_length is out of range".toList
  | cannotRead path cause =>
      "File operation failed: Cannot read ".toList ++ path ++ ": ".toList ++ cause.message
  | cannotWrite path cause =>
      "File operation failed: Cannot write ".toList ++ path ++ ": ".toList ++ cause.message
  | zeroLength => "Validation error: --max-string-length must be at least 1".toList
  | io cause => "IO error: ".toList ++ cause.message

/-- The failure and what has caused it, from the outside in. -/
def causes : Failure → List Text
  | io cause => [message (io cause), cause.message]
  | failure => [failure.message]

/-- A cause with its lines indented by `width`, the first of them after `lead`. -/
def indent (lead : Text) (width : Nat) (cause : Text) : Text :=
  lead ++ ('\n' :: List.replicate width ' ').intercalate (cause.splitOn '\n') ++ ['\n']

/-- A failure as it is shown at the end of a run: what was not done, and then the causes, which are
numbered if there are several. -/
def report (failure : Failure) (context : Text) : Text :=
  "Error: ".toList ++ context ++ "\n\nCaused by:\n".toList ++
    match failure.causes with
    | [cause] => indent (List.replicate 4 ' ') 4 cause
    | causes =>
        (causes.zipIdx.map fun (cause, i) =>
          indent ((Text.ofNat i).padLeft 5 ++ ": ".toList) 7 cause).flatten

end Failure

end CoolLexer
