import ModularBuild.Digest.Sha256
import ModularBuild.FileTree.Change
import ModularBuild.Module.Registry

/-! Detached checksums of artifacts. Only modules that publish have theirs signed. -/

namespace ModularBuild

/-- A file to be written beside an artifact. -/
structure Signature where
  fileName : String
  contents : String
  deriving DecidableEq, Repr

structure Artifact where
  module : String
  name : String
  bytes : Bytes
  deriving DecidableEq, Repr

structure SignedArtifact where
  artifact : Artifact
  signature : Option Signature
  deriving DecidableEq, Repr

/-- Makes the signature of the bytes of a named artifact. -/
abbrev Signer := String → Bytes → Except BuildError Signature

namespace Signature

def isPlainName (name : String) : Bool :=
  !name.isEmpty && name.toList.all fun c => c != '/' && c != '\\'

/-- One line in the format of checksum lists: digest, two spaces, name. -/
def checksum : Signer := fun name bytes =>
  if isPlainName name then
    .ok ⟨name ++ ".sha256", Digest.sha256Hex bytes ++ "  " ++ name ++ "\n"⟩
  else .error (.unsignableName name)

/-- The place of the signature in a directory. -/
def pathIn (s : Signature) (dir : Path) : Path := dir.join ⟨s.fileName⟩

def writeInto (s : Signature) (dir : Path) : Disk FileFault Unit :=
  Disk.change (·.writeFile (s.pathIn dir) (Bytes.ofText s.contents))

def data (s : Signature) : Data :=
  .object [("file_name", .text s.fileName), ("contents", .text s.contents)]

end Signature

def publishingPlugin : String := "publishing"

/-- Signs an artifact if its module publishes. -/
def signArtifact (r : Registry) (sign : Signer) (a : Artifact) :
    Except BuildError SignedArtifact := do
  let m ← r.require a.module
  if m.hasPlugin publishingPlugin then return ⟨a, some (← sign a.name a.bytes)⟩
  else return ⟨a, none⟩

/-- The first artifact that cannot be handled stops all of them. -/
def signPublished (r : Registry) (sign : Signer) (artifacts : List Artifact) :
    Except BuildError (List SignedArtifact) :=
  artifacts.mapM (signArtifact r sign)

end ModularBuild
