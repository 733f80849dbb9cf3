import ModularBuild.Bytes
import ModularBuild.FileTree.Fault
import ModularBuild.Path
import ModularBuild.Table

/-! A file system as a value: what stands at each location, and the directory that relative
paths start from. Locations are compared part by part, so the rows below a directory come
in the order of a walk that sorts by file name. -/

namespace ModularBuild

/-- The names on the way down from the root. -/
abbrev Location := List String

/-- Locations are in the order of their names, the outermost first. -/
instance (priority := high) Location.order : LE (List String) := List.instLE

inductive FileEntry
  | file (bytes : Bytes) (executable : Bool)
  | directory
  | link (target : Path)
  deriving DecidableEq, Repr

/-- The root is a directory without a row of its own. -/
structure FileTree where
  rows : Table Location FileEntry
  current : Location

namespace FileTree

def empty (current : Location) : FileTree := ⟨∅, current⟩

/-- What stands at a location, without following links. -/
def entry? (t : FileTree) (loc : Location) : Option FileEntry :=
  if loc = [] then some .directory else t.rows.find? loc

def put (t : FileTree) (loc : Location) (e : FileEntry) : FileTree :=
  { t with rows := t.rows.insert loc e }

/-- Where a path leads. -/
inductive Spot
  | occupied (loc : Location) (e : FileEntry)
  | vacant (loc : Location)
  deriving DecidableEq, Repr

/-- How far a walk gets before it is over or has to follow a link. -/
inductive Progress
  | over (result : Except FileFault Spot)
  | link (here : Location) (steps : List Path.Step)

def maxNameBytes : Nat := 255
def maxPathBytes : Nat := 4096

/-- Links that may be followed in one look-up. -/
def maxLinks : Nat := 40

/-- Walks down directories up to the first link. A link at the end of the walk is followed
only if `followLast`. -/
def advance (t : FileTree) (followLast : Bool) : Location → List Path.Step → Progress
  | here, [] => .over (.ok (.occupied here .directory))
  | here, .stay :: rest => advance t followLast here rest
  | here, .up :: rest => advance t followLast here.dropLast rest
  | here, .down name :: rest =>
    if maxNameBytes < name.utf8ByteSize then .over (.error .nameTooLong)
    else
      let loc := here ++ [name]
      match t.entry? loc with
      | none => .over (if rest.isEmpty then .ok (.vacant loc) else .error .notFound)
      | some .directory => advance t followLast loc rest
      | some (.file bytes executable) =>
        .over (if rest.isEmpty then .ok (.occupied loc (.file bytes executable))
          else .error .notADirectory)
      | some (.link target) =>
        if rest.isEmpty && !followLast then .over (.ok (.occupied loc (.link target)))
        else if target.chars.isEmpty then .over (.error .notFound)
        else .link (if target.isAbsolute then [] else here) (target.steps ++ rest)

/-- Walks on for as long as links may be followed. -/
def resolveFrom (t : FileTree) (followLast : Bool) :
    Nat → Location → List Path.Step → Except FileFault Spot
  | 0, _, _ => .error .tooManyLinks
  | links + 1, here, steps =>
    match t.advance followLast here steps with
    | .over result => result
    | .link here steps => resolveFrom t followLast links here steps

/-- The spelling of a path that the system takes at all. -/
def checkSpelling (p : Path) : Except FileFault Unit :=
  if p.chars.contains '\x00' then .error .nulInPath
  else if p.chars.isEmpty then .error .notFound
  else if maxPathBytes ≤ p.text.utf8ByteSize then .error .nameTooLong
  else .ok ()

def start (t : FileTree) (p : Path) : Location := if p.isAbsolute then [] else t.current

def resolve (t : FileTree) (followLast : Bool) (p : Path) : Except FileFault Spot := do
  checkSpelling p
  t.resolveFrom followLast (maxLinks + 1) (t.start p) p.steps

/-- Where the path leads in the end. -/
def follow (t : FileTree) (p : Path) : Except FileFault Spot := t.resolve true p

/-- The entry a path leads to in the end, with its location. -/
def stat (t : FileTree) (p : Path) : Except FileFault (Location × FileEntry) := do
  match ← t.follow p with
  | .occupied loc e => return (loc, e)
  | .vacant _ => throw .notFound

def isFile (t : FileTree) (p : Path) : Bool :=
  match t.stat p with
  | .ok (_, .file ..) => true
  | _ => false

def isDirectory (t : FileTree) (p : Path) : Bool :=
  match t.stat p with
  | .ok (_, .directory) => true
  | _ => false

def pathExists (t : FileTree) (p : Path) : Bool := (t.stat p).toBool

def readBytes (t : FileTree) (p : Path) : Except FileFault Bytes := do
  match ← t.stat p with
  | (_, .file bytes _) => return bytes
  | _ => throw .isADirectory

def readText (t : FileTree) (p : Path) : Except FileFault String := do
  match (← t.readBytes p).text? with
  | some text => return text
  | none => throw .notUtf8

/-- The rows strictly below a location, with the names relative to it. -/
def below (t : FileTree) (loc : Location) : List (Location × FileEntry) :=
  t.rows.rows.filterMap fun row =>
    if loc.isPrefixOf row.1 && loc != row.1 then some (row.1.drop loc.length, row.2) else none

/-- The location of a file that is to be opened for writing, and whether it is executable.
A path that ends in a slash cannot name a new file. -/
def openForWriting (t : FileTree) (p : Path) : Except FileFault (Location × Bool) :=
  match t.follow p with
  | .ok (.occupied loc (.file _ executable)) => .ok (loc, executable)
  | .ok (.occupied _ _) => .error .isADirectory
  | .ok (.vacant loc) => .ok (loc, false)
  | .error .notFound =>
    match t.follow p.withoutSlashes with
    | .ok (.vacant _) => .error .isADirectory
    | _ => .error .notFound
  | .error fault => .error fault

/-- Replaces the contents of the file, or makes it. -/
def writeFile (t : FileTree) (p : Path) (bytes : Bytes) : Except FileFault FileTree := do
  let (loc, executable) ← t.openForWriting p
  return t.put loc (.file bytes executable)

end FileTree
end ModularBuild
