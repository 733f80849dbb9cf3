import ModularBuild.Command.Line
import ModularBuild.FileTree.Difference
import ModularBuild.Host.Script

/-! The program. It reads the working directory into a file tree, runs the command line on
it, and brings the directory into the state of the tree that is left. -/

namespace ModularBuild.Program

/-- A file that names its interpreter may be run. -/
def isScript (bytes : Bytes) : Bool := (Script.interpreter? bytes).isSome

/-- A link, by the place that it leads to in the end; one that leads nowhere has no target. -/
def readLink (entry : IO.FS.DirEntry) : IO FileEntry := do
  match ← (IO.FS.realPath entry.path).toBaseIO with
  | .ok target => return .link ⟨target.toString⟩
  | .error _ => return .link ⟨""⟩

/-- Adds what is below a directory, to a depth at which paths are too long to be opened. -/
def readBelow : Nat → Location → List IO.FS.DirEntry → FileTree → IO FileTree
  | 0, _, _, t => return t
  | depth + 1, loc, entries, t =>
    entries.foldlM (fun t entry => do
      let here := loc ++ [entry.fileName]
      match (← entry.path.symlinkMetadata).type with
      | .dir =>
        readBelow depth here (← entry.path.readDir).toList (t.put here .directory)
      | .file =>
        let bytes := (← IO.FS.readBinFile entry.path).data.toList
        return t.put here (.file bytes (isScript bytes))
      | .symlink => return t.put here (← readLink entry)
      | .other => return t) t

def pathText (loc : Location) : String := "/" ++ "/".intercalate loc

def doStep : TreeStep → IO Unit
  | .makeDirectory loc => IO.FS.createDirAll (pathText loc)
  | .writeFile loc bytes => IO.FS.writeBinFile (pathText loc) ⟨bytes.toArray⟩
  | .removeFile loc => IO.FS.removeFile (pathText loc)
  | .removeDirectory loc => IO.FS.removeDir (pathText loc)

/-- The variables that a command may ask for; those of the project's own flags among them. -/
def askedVariables (args : List String) (t : FileTree) : List String :=
  let own := match Invocation.ofArguments args with
    | some (.run settings _) =>
      match Project.load t settings.project with
      | .ok p => p.resolver.specs.values.filterMap (·.environment)
      | .error _ => FlagResolver.builtin.specs.values.filterMap (·.environment)
    | _ => []
  [Settings.logVariable, "NO_COLOR", "CLICOLOR", "CLICOLOR_FORCE"] ++ own

def environment (names : List String) : IO (Table String String) :=
  names.foldlM (fun found name => do
    match ← IO.getEnv name with
    | some value => return found.insert name value
    | none => return found) ∅

/-- The directories from the root down to the location. -/
def above (loc : Location) : List Location := (List.range (loc.length + 1)).drop 1 |>.map loc.take

def run (args : List String) : IO UInt32 := do
  let directory ← IO.currentDir
  let current := directory.components.filter (· ≠ "")
  let start := (above current).foldl (fun t loc => t.put loc .directory) (FileTree.empty current)
  let entries := (← directory.readDir).toList
  let before ← readBelow FileTree.maxPathBytes current entries start
  let host : Host := {
    environment := ← environment (askedVariables args before)
    terminal := ← (← IO.getStdout).isTty
    launch := Script.launch
    deflate := Gzip.stored }
  let outcome := CommandLine.run host args before
  (before.difference outcome.tree).forM doStep
  IO.print outcome.output
  IO.eprint outcome.errors
  return UInt32.ofNat outcome.code

end ModularBuild.Program

def main (args : List String) : IO UInt32 := ModularBuild.Program.run args
