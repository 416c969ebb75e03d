import CoolLexer.FileSystem.Storage

/-!
# Outlets

An outlet takes bytes and gives none back. One that fails has taken what there was room for.
-/

namespace CoolLexer

structure Outlet where
  /-- What has been taken so far. -/
  taken : List UInt8 := []
  /-- How many bytes more are taken before writing fails, and why it fails then. -/
  fault : Option (Nat × FileError) := none
deriving Repr, DecidableEq

namespace Outlet

def write (outlet : Outlet) (bytes : List UInt8) : Except FileError Unit × Outlet :=
  match outlet.fault with
  | none => (.ok (), { outlet with taken := outlet.taken ++ bytes })
  | some (room, cause) =>
      let outlet := {
        taken := outlet.taken ++ bytes.take room
        fault := some (room - bytes.length, cause) }
      (if bytes.length ≤ room then .ok () else .error cause, outlet)

end Outlet

end CoolLexer
