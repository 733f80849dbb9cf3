import ModularBuild.Archive.Spec.Notation
import ModularBuild.Command.Loading
import ModularBuild.Signing

/-! The command that builds an archive. Everything that can go wrong about its contents and
its signature comes to light before anything is written. -/

namespace ModularBuild

structure ArchiveRequest where
  spec : Path
  output : Option Path
  gzip : Bool
  sign : Bool
  module : Option String
  deriving DecidableEq, Repr

namespace ArchiveRequest

def compression (r : ArchiveRequest) : Compression := if r.gzip then .gzip else .none

def outputPath (r : ArchiveRequest) : Path :=
  r.output.getD (Archive.defaultOutput r.spec r.compression)

end ArchiveRequest

namespace Command

def buildArchive (c : Context) (r : ArchiveRequest) : Command Archive := do
  let spec ← inspect fun t => ArchiveSpec.load t r.spec
  logAll c (Journal.ignoredRequests spec)
  let archive ← inspect fun t => Archive.buildWith c.host.deflate t r.compression spec
  log c (Journal.builtArchive archive)
  return archive

/-- Signs for a module of the project, if that module publishes. -/
def signFor (c : Context) (module name : String) (archive : Archive) :
    Command (Option Signature) := do
  let p ← loadProject c
  let registry ← check p.registry
  let signed ← check (signArtifact registry Signature.checksum ⟨module, name, archive.bytes⟩)
  if signed.signature.isNone then log c (Journal.notSigned module name)
  return signed.signature

/-- Without a module the archive is signed in any case. -/
def signArchive (c : Context) (r : ArchiveRequest) (archive : Archive) :
    Command (Option Signature) := do
  if !r.sign then return none
  match r.outputPath.fileName? with
  | none => throw (.noFileName r.outputPath)
  | some name =>
    match r.module with
    | none => return some (← check (Signature.checksum name archive.bytes))
    | some module => signFor c module name archive

/-- The place of a signature beside the archive. -/
def signaturePath (output : Path) (s : Signature) : Path := s.pathIn (output.parent?.getD ⟨""⟩)

def archive (c : Context) (r : ArchiveRequest) : Command Unit := do
  let archive ← buildArchive c r
  let signature ← signArchive c r archive
  change (archive.writeTo r.outputPath)
  match signature with
  | some s =>
    change (s.writeInto (r.outputPath.parent?.getD ⟨""⟩))
    report c .success ("wrote " ++ (signaturePath r.outputPath s).text)
  | none => if r.sign then report c .warning "module does not publish; no signature written"
  print (archive.sha256 ++ "  " ++ r.outputPath.text ++ "\n")

end Command
end ModularBuild
