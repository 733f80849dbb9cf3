import ModularBuild.FileTree

/-! Changes to a file system that may fail half-way. A change yields its result together
with the tree it leaves behind, also when it fails. -/

namespace ModularBuild

/-- A computation that reads and changes a file tree and may fail. -/
abbrev Disk (ε α : Type) := ExceptT ε (StateM FileTree) α

namespace Disk

/-- A change that either happens as a whole or leaves the tree alone. -/
def change {ε : Type} (f : FileTree → Except ε FileTree) : Disk ε Unit := do
  match f (← get) with
  | .ok t => set t
  | .error e => throw e

/-- The outcome, and the tree that is left. -/
def runOn {ε α : Type} (d : Disk ε α) (t : FileTree) : Except ε α × FileTree :=
  (ExceptT.run d).run t

end Disk

namespace FileTree

/-- The directory that the walk ends in. -/
def directoryAt (t : FileTree) (p : Path) (steps : List Path.Step) :
    Except FileFault Location := do
  match ← t.resolveFrom true (maxLinks + 1) (t.start p) steps with
  | .occupied loc .directory => return loc
  | .occupied _ _ => throw .notADirectory
  | .vacant _ => throw .notFound

/-- Makes one directory; everything above it has to exist. -/
def makeDirectory (t : FileTree) (p : Path) : Except FileFault FileTree := do
  checkSpelling p
  let steps := p.withoutSlashes.steps
  match steps.getLast? with
  | some (.down name) =>
    let above ← t.directoryAt p steps.dropLast
    if maxNameBytes < name.utf8ByteSize then throw .nameTooLong
    else if (t.entry? (above ++ [name])).isSome then throw .alreadyExists
    else return t.put (above ++ [name]) .directory
  | _ =>
    let _ ← t.directoryAt p steps
    throw .alreadyExists

/-- Makes the directory and what is missing above it. The paths above get shorter, so their
number is below the length of the path. -/
def makeDirectoriesWithin : Nat → Path → Disk FileFault Unit
  | 0, _ => throw .notFound
  | fuel + 1, p => do
    if p.cut.1 = .none && p.cut.2.all Path.idle then return
    match (← get).makeDirectory p with
    | .ok t => set t
    | .error .notFound =>
      match p.parent? with
      | none => throw .notFound
      | some above =>
        makeDirectoriesWithin fuel above
        match (← get).makeDirectory p with
        | .ok t => set t
        | .error fault => if (← get).isDirectory p then return else throw fault
    | .error fault => if (← get).isDirectory p then return else throw fault

def makeDirectories (p : Path) : Disk FileFault Unit :=
  makeDirectoriesWithin (p.chars.length + 1) p

/-- Removes the location and everything below it. -/
def dropAt (t : FileTree) (loc : Location) : FileTree :=
  { t with rows := t.rows.filter fun l _ => !loc.isPrefixOf l }

/-- Removes a directory with all it holds; of a link only the link goes. -/
def removeDirectory (t : FileTree) (p : Path) : Except FileFault FileTree := do
  match ← t.resolve false p with
  | .vacant _ => throw .notFound
  | .occupied _ (.file ..) => throw .notADirectory
  | .occupied loc _ => return t.dropAt loc

/-- Removes whatever the path names, without following a link at its end. -/
def remove (t : FileTree) (p : Path) : Except FileFault FileTree := do
  match ← t.resolve false p with
  | .vacant _ => throw .notFound
  | .occupied loc _ => return t.dropAt loc

/-- Copies a regular file with its mode. The target is emptied before the source is read,
so a file copied onto itself is empty afterwards. -/
def copyFile (t : FileTree) (source target : Path) : Except FileFault FileTree := do
  match ← t.stat source with
  | (loc, .file bytes executable) =>
    let (dest, _) ← t.openForWriting target
    return t.put dest (.file (if dest = loc then [] else bytes) executable)
  | _ => throw .notARegularFile

/-- Puts a file, directory or link there, with what is missing above it. -/
def place (t : FileTree) (p : Path) (e : FileEntry) : FileTree :=
  let loc := p.steps.foldl (fun here step =>
    match step with
    | .stay => here
    | .up => here.dropLast
    | .down name => here ++ [name]) (t.start p)
  let above := (List.range loc.length).map fun n => loc.take n
  let t := above.foldl (fun t l => if (t.entry? l).isNone then t.put l .directory else t) t
  t.put loc e

end FileTree
end ModularBuild
