import ModularBuild.Archive.OctalMode
import ModularBuild.Archive.Spec
import ModularBuild.Data.Yaml
import ModularBuild.Error
import ModularBuild.FileTree
import ModularBuild.Yaml.Decode

/-! The YAML notation of an archive description. An entry names its source by one of the
keys `file` and `text` beside its path; modes are octal texts. -/

namespace ModularBuild

open Yaml (Decode Found Value)

namespace ArchiveEntry

/-- The fields of an entry while it is read. Of the keys besides the path the first one that
names a source counts. -/
structure Draft where
  path : Option String
  others : List (String × Found)

/-- The source that a key stands for, if the key names one. -/
def sourceOf? (key : String) (found : Found) : Option (Decode ContentSource) :=
  if key = "file" then
    some <| match found with
      | .scalar (.text s) => return .file ⟨s⟩
      | _ => Value.fail (.invalidType found "path string")
  else if key = "text" then
    some <| match found with
      | .scalar (.text s) => return .text s
      | _ => Value.fail (.invalidType found "a string")
  else none

def readSource (others : List (String × Found)) : Decode ContentSource :=
  match others.findSome? fun (key, found) => sourceOf? key found with
  | some read => read
  | none => Value.fail (.noVariant "ContentSource")

def read (v : Value) : Decode ArchiveEntry :=
  v.fields "ArchiveEntry" (⟨none, []⟩ : Draft)
    (fun draft key value => do
      if key = "path" then
        return { draft with path := ← Value.once "path" draft.path value.text }
      else return { draft with others := draft.others ++ [(key, ← value.content)] })
    (fun draft => do
      let path ← Value.required "path" draft.path
      return ⟨path, ← readSource draft.others⟩)

/-- Bytes have no notation. -/
def data? (e : ArchiveEntry) : Option Data :=
  match e.source with
  | .file path => some (.object [("path", .text e.path), ("file", .text path.text)])
  | .text contents => some (.object [("path", .text e.path), ("text", .text contents)])
  | .bytes _ => none

end ArchiveEntry

namespace Permissions

def readMode (v : Value) : Decode Nat := do
  let raw ← v.text
  match OctalMode.parse? raw with
  | some mode => return mode
  | none => Value.fail (.notOctal raw)

structure Draft where
  fileMode : Option Nat
  dirMode : Option Nat

def read (v : Value) : Decode Permissions :=
  v.fields "PermissionPolicy" (⟨none, none⟩ : Draft)
    (fun draft key value => do
      if key = "file_mode" then
        return { draft with fileMode := ← Value.once key draft.fileMode (readMode value) }
      else if key = "dir_mode" then
        return { draft with dirMode := ← Value.once key draft.dirMode (readMode value) }
      else return draft)
    (fun draft => do
      let fileMode ← Value.required "file_mode" draft.fileMode
      return ⟨fileMode, ← Value.required "dir_mode" draft.dirMode⟩)

def data (p : Permissions) : Data :=
  .object [("file_mode", .text (OctalMode.render p.fileMode)),
    ("dir_mode", .text (OctalMode.render p.dirMode))]

end Permissions

def TimestampPolicy.name : TimestampPolicy → String
  | strip => "strip"
  | preserve => "preserve"

def TimestampPolicy.named : List (String × TimestampPolicy) :=
  [strip, preserve].map fun policy => (policy.name, policy)

namespace ArchiveSpec

structure Draft where
  entries : Option (List ArchiveEntry)
  timestamps : Option TimestampPolicy
  permissions : Option Permissions

def read (v : Value) : Decode ArchiveSpec :=
  v.fields "ArchiveSpec" (⟨none, none, none⟩ : Draft)
    (fun draft key value => do
      if key = "entries" then
        return { draft with
          entries := ← Value.once key draft.entries (value.list ArchiveEntry.read) }
      else if key = "timestamps" then
        return { draft with
          timestamps := ← Value.once key draft.timestamps (value.variant TimestampPolicy.named) }
      else if key = "permissions" then
        return { draft with
          permissions := ← Value.once key draft.permissions (Permissions.read value) }
      else return draft)
    (fun draft => pure
      { entries := draft.entries.getD []
        timestamps := draft.timestamps.getD .strip
        permissions := draft.permissions.getD .standard })

def ofYaml (yaml : String) : Except BuildError ArchiveSpec :=
  (Yaml.decode yaml read).mapError .yaml

def data? (spec : ArchiveSpec) : Option Data := do
  let entries ← spec.entries.mapM ArchiveEntry.data?
  return .object [("entries", .list entries), ("timestamps", .text spec.timestamps.name),
    ("permissions", spec.permissions.data)]

def toYaml? (spec : ArchiveSpec) : Option String := spec.data?.map Data.yaml

/-- Reads the description in a file; its relative sources are looked for beside it. -/
def load (t : FileTree) (path : Path) : Except BuildError ArchiveSpec := do
  let text ← (t.readText path).mapError .system
  let spec ← ofYaml text
  return spec.from (path.parent?.getD ⟨"."⟩)

end ArchiveSpec
end ModularBuild
