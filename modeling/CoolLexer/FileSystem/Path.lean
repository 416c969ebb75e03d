import CoolLexer.Text

/-!
# Paths

A path is a text with its parts between slashes. Empty parts and parts that are a single dot lead
nowhere and count only at the start.
-/

namespace CoolLexer.Path

/-- The parts of a path that matter; an absolute path starts with a part that is a slash. -/
def components (path : Text) : List Text :=
  let matters := fun part : Text => part ≠ [] ∧ part ≠ ['.']
  match path.splitOn '/' with
  | [] => []
  | first :: rest =>
      let rest := rest.filter matters
      if first = [] then if path.isEmpty then [] else ['/'] :: rest else first :: rest

def ofComponents : List Text → Text
  | ['/'] :: rest => '/' :: ['/'].intercalate rest
  | parts => ['/'].intercalate parts

def join (directory name : Text) : Text :=
  if name.head? = some '/' || directory.isEmpty then name
  else if directory.getLast? = some '/' then directory ++ name
  else directory ++ '/' :: name

end CoolLexer.Path
