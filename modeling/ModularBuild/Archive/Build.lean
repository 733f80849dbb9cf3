import ModularBuild.Archive.Gzip
import ModularBuild.Archive.Tar
import ModularBuild.Digest.Sha256
import ModularBuild.FileTree.Change

/-! Finished archives. Equal contents under equal paths give equal archives. -/

namespace ModularBuild

inductive Compression
  | none
  | gzip
  deriving DecidableEq, Repr

/-- The conventional extension of a file name. -/
def Compression.extension : Compression → String
  | none => "tar"
  | gzip => "tar.gz"

/-- Entries as bytes, where compressed bytes are packed by the given encoder. -/
def Compression.encodeWith (deflate : Bytes → Bytes) (compression : Compression)
    (entries : List PlannedEntry) : Except BuildError Bytes := do
  let tar ← Tar.encode entries
  match compression with
  | none => return tar
  | gzip => return Gzip.wrap deflate tar

structure Archive where
  bytes : Bytes
  sha256 : String
  entries : List String
  compression : Compression
  deriving DecidableEq, Repr

namespace Archive

def buildWith (deflate : Bytes → Bytes) (t : FileTree) (compression : Compression)
    (spec : ArchiveSpec) : Except BuildError Archive := do
  let entries ← ArchivePlan.plan t spec
  let bytes ← compression.encodeWith deflate entries
  return ⟨bytes, Digest.sha256Hex bytes, entries.map (·.path), compression⟩

/-- Writes the archive, with the directories that are missing above it. -/
def writeTo (a : Archive) (path : Path) : Disk FileFault Unit := do
  match path.parent? with
  | some above => if above.text ≠ "" then FileTree.makeDirectories above
  | none => pure ()
  Disk.change (·.writeFile path a.bytes)

/-- The archive beside its description, and named after it. -/
def defaultOutput (spec : Path) (compression : Compression) : Path :=
  spec.withExtension compression.extension

end Archive
end ModularBuild
