import ModularBuild.Error
import ModularBuild.Path

/-! The canonical form of a path inside an archive: segments with single slashes between
them, none of them empty, `.` or `..`, and relative on every system. -/

namespace ModularBuild.EntryPath

/-- Both kinds of slashes separate segments. -/
def unify (cs : List Char) : List Char := cs.map fun c => if c = '\\' then '/' else c

/-- A colon in the second place, after one byte, names a drive. -/
def isDriveQualified : List Char → Bool
  | c :: ':' :: _ => c.toNat < 128
  | _ => false

/-- The segments that say something. -/
def segments (cs : List Char) : List (List Char) :=
  (Text.splitOn '/' cs).filter fun segment => !Path.idle segment

def normalizeChars (raw : List Char) : Except PathRejection (List Char) :=
  let cs := unify raw
  if cs.head? = some '/' then .error .absolute
  else if isDriveQualified cs then .error .driveQualified
  else if ['.', '.'] ∈ segments cs then .error .parentSegment
  else if segments cs = [] then .error .empty
  else .ok (Text.joinWith ['/'] (segments cs))

def normalize (raw : String) : Except BuildError String :=
  match normalizeChars raw.toList with
  | .ok cs => .ok (String.ofList cs)
  | .error reason => .error (.invalidArchivePath raw reason)

/-- The paths of the directories above a path, each with its slash at the end, outermost
first. `above` is what has been passed so far. -/
def ancestorChars (above : List Char) : List Char → List (List Char)
  | [] => []
  | c :: rest =>
    if c = '/' then (above ++ [c]) :: ancestorChars (above ++ [c]) rest
    else ancestorChars (above ++ [c]) rest

def ancestors (path : String) : List String := (ancestorChars [] path.toList).map String.ofList

end ModularBuild.EntryPath
