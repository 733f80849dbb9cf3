import ModularBuild.Archive.NameFault
import ModularBuild.FileTree.Fault
import ModularBuild.Glob
import ModularBuild.Path
import ModularBuild.Yaml.Fault

/-! Everything that can stop a build step, as causes. The wording is in one function. -/

namespace ModularBuild

/-- Why an archive path is rejected. -/
inductive PathRejection
  | absolute
  | driveQualified
  | parentSegment
  | empty
  deriving DecidableEq, Repr

def PathRejection.reason : PathRejection → String
  | absolute => "absolute path"
  | driveQualified => "drive-qualified path"
  | parentSegment => "contains '..'"
  | empty => "empty path"

/-- Why the external report generator gave no report. -/
inductive ReportFailure
  | cannotRun (program : Path) (fault : FileFault)
  | exited (status : String) (firstLine : Option String)
  deriving DecidableEq, Repr

def ReportFailure.reason : ReportFailure → String
  | cannotRun program fault => "failed to run " ++ program.text ++ ": " ++ fault.message
  | exited status firstLine =>
    "jacoco exited with " ++ status ++ ": " ++ firstLine.getD "no output"

inductive BuildError
  | unknownTool (name : String)
  | blankEncoding
  | blankModuleName
  | absoluteModuleDir (module : String)
  | unreadableProject (path : Path) (fault : FileFault)
  | policyRejected (reason : String)
  | duplicateModule (name : String)
  | unknownModule (name : String)
  | unknownToolchain (tool version : String) (known : List String)
  | noticeMarkerMissing (marker : String)
  | noticePatternMismatch (line : String)
  | mergeCollision (identity : String) (modules : List String)
  | missingClassArtifacts (module : String)
  | missingClassTree (module : String) (dir : Path)
  | reportGeneration (failure : ReportFailure)
  | invalidArchivePath (path : String) (reason : PathRejection)
  | duplicateArchivePath (path : String)
  | archivePathConflict (path : String)
  | archiveSource (path : Path) (fault : FileFault)
  | unsignableName (name : String)
  | system (fault : FileFault)
  | entryName (name : String) (fault : NameFault)
  | yaml (fault : Yaml.Fault)
  | walk (path : Path) (fault : FileFault)
  | pattern (fault : GlobFault)
  deriving DecidableEq, Repr

namespace BuildError

def message : BuildError → String
  | unknownTool name => "Configuration error: unknown tool '" ++ name ++ "'"
  | blankEncoding => "Configuration error: policy encoding must not be empty"
  | blankModuleName => "Configuration error: module name must not be empty"
  | absoluteModuleDir module =>
    "Configuration error: module '" ++ module ++ "' directory must be relative to the project"
  | unreadableProject path fault =>
    "Configuration error: cannot read project file " ++ path.text ++ ": " ++ fault.message
  | policyRejected reason => "Configuration error: " ++ reason
  | duplicateModule name => "Duplicate module '" ++ name ++ "' in project graph"
  | unknownModule name => "Unknown module '" ++ name ++ "'"
  | unknownToolchain tool version known =>
    "Unknown " ++ tool ++ " toolchain version '" ++ version ++ "' (known: " ++
      ", ".intercalate known ++ ")"
  | noticeMarkerMissing marker =>
    "Unable to identify copyright year: no line contains '" ++ marker ++ "'"
  | noticePatternMismatch line => "Unable to identify copyright year from line: " ++ line
  | mergeCollision identity modules =>
    "Class '" ++ identity ++ "' is contributed by more than one module: " ++
      ", ".intercalate modules
  | missingClassArtifacts module =>
    "Module '" ++ module ++ "' produced execution data but has no class artifacts"
  | missingClassTree module dir =>
    "Module '" ++ module ++ "' produced execution data but class tree " ++ dir.text ++
      " is missing"
  | reportGeneration failure => "Report generation failed: " ++ failure.reason
  | invalidArchivePath path reason =>
    "Invalid archive path '" ++ path ++ "': " ++ reason.reason
  | duplicateArchivePath path => "Duplicate archive path '" ++ path ++ "'"
  | archivePathConflict path =>
    "Archive path '" ++ path ++ "' is used both as a file and as a directory"
  | archiveSource path fault =>
    "Failed to read archive source " ++ path.text ++ ": " ++ fault.message
  | unsignableName name =>
    "Signing failed: artifact name '" ++ name ++ "' is not a plain file name"
  | system fault => "I/O error: " ++ fault.message
  | entryName name fault =>
    "I/O error: " ++ fault.message ++ " when setting path for " ++ name
  | yaml fault => "YAML error: " ++ fault.message
  | walk path fault =>
    "Directory walk failed: IO error for operation on " ++ path.text ++ ": " ++ fault.message
  | pattern fault => "Invalid exclusion pattern: " ++ fault.message

/-- Whether the set-up of the project is to blame. -/
def isConfiguration : BuildError → Bool
  | unknownTool _ | blankEncoding | blankModuleName | absoluteModuleDir _
  | unreadableProject .. | policyRejected _ | duplicateModule _ | unknownToolchain ..
  | noticeMarkerMissing _ | noticePatternMismatch _ | yaml _ | pattern _ => true
  | _ => false

end BuildError
end ModularBuild
