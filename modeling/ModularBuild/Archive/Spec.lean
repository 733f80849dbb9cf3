import ModularBuild.Bytes
import ModularBuild.Path

/-! The description of one archive. -/

namespace ModularBuild

inductive ContentSource
  | file (path : Path)
  | text (contents : String)
  | bytes (contents : Bytes)
  deriving DecidableEq, Repr

/-- A relative file is looked for from the base. -/
def ContentSource.from (base : Path) : ContentSource → ContentSource
  | file path => .file (base.join path)
  | other => other

structure ArchiveEntry where
  path : String
  source : ContentSource
  deriving DecidableEq, Repr

/-- What is asked for the timestamps of the entries; they are always stripped. -/
inductive TimestampPolicy
  | strip
  | preserve
  deriving DecidableEq, Repr

/-- Permission bits that are asked for; the entries always get the standard ones. -/
structure Permissions where
  fileMode : Nat
  dirMode : Nat
  deriving DecidableEq, Repr

def Permissions.standard : Permissions := ⟨0o664, 0o775⟩

structure ArchiveSpec where
  entries : List ArchiveEntry
  timestamps : TimestampPolicy
  permissions : Permissions
  deriving DecidableEq, Repr

/-- Relative file sources are looked for from the base. -/
def ArchiveSpec.from (base : Path) (spec : ArchiveSpec) : ArchiveSpec :=
  { spec with entries := spec.entries.map fun e => { e with source := e.source.from base } }

end ModularBuild
