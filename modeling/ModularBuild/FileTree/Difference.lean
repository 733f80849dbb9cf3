import ModularBuild.FileTree

/-! What has to be done to a file system so that it becomes another one. -/

namespace ModularBuild

/-- One step on the way from one tree to another. -/
inductive TreeStep
  | makeDirectory (loc : Location)
  | writeFile (loc : Location) (bytes : Bytes)
  | removeFile (loc : Location)
  | removeDirectory (loc : Location)
  deriving DecidableEq, Repr

namespace FileTree

def isDirectoryEntry : FileEntry → Bool
  | .directory => true
  | _ => false

/-- The removal of what stands at a location. -/
def removal (row : Location × FileEntry) : TreeStep :=
  if isDirectoryEntry row.2 then .removeDirectory row.1 else .removeFile row.1

/-- What is gone goes first, from the inside out; then what is new or changed is made, from
the outside in. -/
def difference (before after : FileTree) : List TreeStep :=
  let gone := before.rows.rows.filter fun row => (after.entry? row.1).isNone
  let made := after.rows.rows.filter fun row => before.entry? row.1 ≠ some row.2
  gone.reverse.map removal ++ made.filterMap fun row =>
    match row.2 with
    | .directory => some (.makeDirectory row.1)
    | .file bytes _ => some (.writeFile row.1 bytes)
    | .link _ => none

end FileTree
end ModularBuild
