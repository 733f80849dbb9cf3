import ModularBuild.Archive.EntryPath
import ModularBuild.Archive.Spec
import ModularBuild.FileTree

/-! The entries of an archive in their canonical order: sorted by path, with every directory
above a file, whatever the order and the spelling of the description. -/

namespace ModularBuild

inductive EntryKind
  | directory
  | file (contents : Bytes)
  deriving DecidableEq, Repr

structure PlannedEntry where
  path : String
  kind : EntryKind
  mode : Nat
  deriving DecidableEq, Repr

namespace ArchivePlan

def fileMode : Nat := Permissions.standard.fileMode
def dirMode : Nat := Permissions.standard.dirMode

/-- Sources under their normalized paths. A path that comes twice is an error. -/
def collect (files : Table String ContentSource) :
    List ArchiveEntry → Except BuildError (Table String ContentSource)
  | [] => .ok files
  | e :: rest =>
    match EntryPath.normalize e.path with
    | .error reason => .error reason
    | .ok path =>
      if files.contains path then .error (.duplicateArchivePath path)
      else collect (files.insert path e.source) rest

/-- The directories above any of the paths. -/
def directories (paths : List String) : List String := paths.flatMap EntryPath.ancestors

/-- A path that is a file and a directory. -/
def conflict? (paths : List String) : Option String :=
  paths.find? fun path => (directories paths).contains (path ++ "/")

def readSource (t : FileTree) : ContentSource → Except BuildError Bytes
  | .file path => (t.readBytes path).mapError (.archiveSource path)
  | .text contents => .ok (Bytes.ofText contents)
  | .bytes contents => .ok contents

/-- Reads the sources in the order of their paths. -/
def readFiles (t : FileTree) : List (String × ContentSource) →
    Except BuildError (List PlannedEntry)
  | [] => .ok []
  | (path, source) :: rest => do
    let contents ← readSource t source
    let entries ← readFiles t rest
    return ⟨path, .file contents, fileMode⟩ :: entries

def directoryEntry (path : String) : PlannedEntry := ⟨path, .directory, dirMode⟩

/-- Entries sorted by their paths; of two with one path the last one stays. -/
def arrange (entries : List PlannedEntry) : List PlannedEntry :=
  (Table.ofList (entries.map fun e => (e.path, e))).values

def plan (t : FileTree) (spec : ArchiveSpec) : Except BuildError (List PlannedEntry) := do
  let files ← collect ∅ spec.entries
  match conflict? files.keys with
  | some path => throw (.archivePathConflict path)
  | none =>
    let contents ← readFiles t files.rows
    return arrange ((directories files.keys).map directoryEntry ++ contents)

end ArchivePlan
end ModularBuild
