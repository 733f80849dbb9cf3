import ModularBuild.Coverage.Exclusion
import ModularBuild.Data
import ModularBuild.FileTree.Change

/-! The classes of all modules as one set. A class is known by its path below the root of
its tree; no two classes of the set share one. -/

namespace ModularBuild

def classExtension : String := "class"

/-- A directory of compiled classes. -/
structure ClassTree where
  module : String
  root : Path
  deriving DecidableEq, Repr

structure ClassArtifact where
  identity : String
  module : String
  path : Path
  deriving DecidableEq, Repr

structure ClassSet where
  trees : List ClassTree
  artifacts : Table String ClassArtifact
  excluded : List ClassArtifact

def ClassTree.data (tree : ClassTree) : Data :=
  .object [("module", .text tree.module), ("root", .text tree.root.text)]

def ClassArtifact.data (a : ClassArtifact) : Data :=
  .object [("identity", .text a.identity), ("module", .text a.module),
    ("path", .text a.path.text)]

namespace ClassTree

def joinNames (names : List String) : String := "/".intercalate names

/-- The path under which a walk meets what has these names below the root. -/
def pathTo (tree : ClassTree) (names : List String) : Path :=
  names.foldl (fun p name => p.join ⟨name⟩) tree.root

/-- The class that a row below the root stands for. Links are neither classes nor followed. -/
def artifact? (tree : ClassTree) (row : Location × FileEntry) : Option ClassArtifact :=
  let path := tree.pathTo row.1
  match row.2 with
  | .file .. =>
    if path.hasExtension classExtension then some ⟨joinNames row.1, tree.module, path⟩ else none
  | _ => none

/-- A directory is opened by its path. It is there, but its path may be too long. -/
def openRow (tree : ClassTree) (row : Location × FileEntry) : Except BuildError Unit :=
  let path := tree.pathTo row.1
  match row.2 with
  | .directory => (FileTree.checkSpelling path).mapError (.walk path)
  | _ => .ok ()

def classesBelow (t : FileTree) (tree : ClassTree) (loc : Location) :
    Except BuildError (List ClassArtifact) := do
  (t.below loc).forM tree.openRow
  return (t.below loc).filterMap tree.artifact?

/-- The classes of a tree, directory by directory in the order of the names. A root that is
a class file is the only class of its tree. -/
def walk (t : FileTree) (tree : ClassTree) : Except BuildError (List ClassArtifact) :=
  let failed (fault : FileFault) : Except BuildError (List ClassArtifact) :=
    .error (.walk tree.root fault)
  match t.resolve false tree.root with
  | .error fault => failed fault
  | .ok (.vacant _) => failed .notFound
  | .ok (.occupied loc .directory) => tree.classesBelow t loc
  | .ok (.occupied _ (.file ..)) =>
    .ok (if tree.root.hasExtension classExtension then [⟨"", tree.module, tree.root⟩] else [])
  | .ok (.occupied _ (.link _)) =>
    match t.stat tree.root with
    | .error fault => failed fault
    | .ok (loc, .directory) => tree.classesBelow t loc
    | .ok _ => .ok []

def walkAll (t : FileTree) (trees : List ClassTree) : Except BuildError (List ClassArtifact) := do
  return (← trees.mapM (walk t)).flatten

end ClassTree

namespace ClassSet

/-- The classes under each identity, in the order in which they were found. -/
def claims (found : List ClassArtifact) : Table String (List ClassArtifact) :=
  found.foldl (fun t a => t.insert a.identity ((t.find? a.identity).getD [] ++ [a])) ∅

/-- Puts classes together. Excluded ones are left out whoever contributes them; any other
identity that comes twice is a collision, of which the first in order is reported. -/
def ofFound (trees : List ClassTree) (rules : ExclusionRules) (found : List ClassArtifact) :
    Except BuildError ClassSet :=
  let kept := found.filter fun a => !rules.excludes a.identity
  match (claims kept).rows.find? fun row => 1 < row.2.length with
  | some (identity, claimants) => .error (.mergeCollision identity (claimants.map (·.module)))
  | none =>
    .ok ⟨trees, .ofList (kept.map fun a => (a.identity, a)),
      found.filter fun a => rules.excludes a.identity⟩

def merge (t : FileTree) (trees : List ClassTree) (rules : ExclusionRules) :
    Except BuildError ClassSet := do
  ofFound trees rules (← ClassTree.walkAll t trees)

def identities (s : ClassSet) : List String := s.artifacts.keys

def get? (s : ClassSet) (identity : String) : Option ClassArtifact := s.artifacts.find? identity

def size (s : ClassSet) : Nat := s.artifacts.size

def data (s : ClassSet) : Data :=
  .object [("trees", .list (s.trees.map ClassTree.data)),
    ("artifacts", .rows ClassArtifact.data s.artifacts.rows),
    ("excluded", .list (s.excluded.map ClassArtifact.data))]

/-! ## Staging -/

/-- How far staging got: the classes that were copied, the fault that stopped it, and the
file tree afterwards. -/
structure Staging where
  staged : List ClassArtifact
  fault : Option FileFault
  tree : FileTree

def copyClass (dir : Path) (a : ClassArtifact) : Disk FileFault Unit := do
  let target := dir.join ⟨a.identity⟩
  match target.parent? with
  | some above => FileTree.makeDirectories above
  | none => pure ()
  Disk.change (·.copyFile a.path target)

def copyClasses (dir : Path) : List ClassArtifact → FileTree → Staging
  | [], t => ⟨[], none, t⟩
  | a :: rest, t =>
    match (copyClass dir a).runOn t with
    | (.error fault, t) => ⟨[], some fault, t⟩
    | (.ok (), t) =>
      let after := copyClasses dir rest t
      { after with staged := a :: after.staged }

/-- Copies the classes, in the order of their identities, into one directory. -/
def stage (s : ClassSet) (dir : Path) (t : FileTree) : Staging :=
  match (FileTree.makeDirectories dir).runOn t with
  | (.error fault, t) => ⟨[], some fault, t⟩
  | (.ok (), t) => copyClasses dir s.artifacts.values t

/-- The number of classes that staging reports in the end, unless a fault has stopped it. -/
def stagedCount (s : ClassSet) (staging : Staging) : Except FileFault Nat :=
  match staging.fault with
  | some fault => .error fault
  | none => .ok s.size

end ClassSet
end ModularBuild
