import CoolLexer.Source.File

/-!
# Source maps

A source map numbers the files of a session in the order in which they are added.
-/

namespace CoolLexer

/-- The files that spans refer to. -/
structure SourceMap where
  files : Array SourceFile := #[]
deriving Repr, DecidableEq

namespace SourceMap

def add (sources : SourceMap) (name content : Text) : FileId × SourceMap :=
  (sources.files.size, ⟨sources.files.push ⟨name, content⟩⟩)

def get (sources : SourceMap) (file : FileId) : Except SourceError SourceFile :=
  match sources.files[file]? with
  | some found => .ok found
  | none => .error (.unknownFile file)

theorem get_add (sources : SourceMap) (name content : Text) :
    (sources.add name content).2.get (sources.add name content).1 = .ok ⟨name, content⟩ := by
  simp [add, get]

end SourceMap

end CoolLexer
