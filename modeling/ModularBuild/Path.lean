import ModularBuild.Text.Lines

/-! File paths as they are written. A path keeps its spelling; repeated slashes, `.` parts
and trailing slashes are passed over only when a path is taken apart. -/

namespace ModularBuild

structure Path where
  text : String
  deriving DecidableEq, Repr, Inhabited

namespace Path

def chars (p : Path) : List Char := p.text.toList

def isAbsolute (p : Path) : Bool := p.chars.head? == some '/'

/-- What the spelling starts with. A leading `.` counts as a part of its own, unlike the
later ones. -/
inductive Lead
  | root
  | here
  | none
  deriving DecidableEq

def Lead.text : Lead → List Char
  | root => ['/']
  | here => ['.']
  | none => []

/-- The lead, and the pieces between the slashes after it. -/
def cut (p : Path) : Lead × List (List Char) :=
  match Text.splitOn '/' p.chars with
  | [] => (.none, [])
  | [] :: rest => if p.chars.isEmpty then (.none, []) else (.root, rest)
  | ['.'] :: rest => (.here, rest)
  | pieces => (.none, pieces)

/-- A piece that a walk along the path passes over. -/
def idle (piece : List Char) : Bool := piece == [] || piece == ['.']

theorem idle_eq_false_iff {piece : List Char} :
    idle piece = false ↔ piece ≠ [] ∧ piece ≠ ['.'] := by
  simp [idle]

/-- The pieces without the idle ones at the end, last first. -/
def lastFirst (pieces : List (List Char)) : List (List Char) := pieces.reverse.dropWhile idle

def spell (lead : Lead) (pieces : List (List Char)) : Path :=
  let body := Text.joinWith ['/'] pieces
  ⟨String.ofList <|
    if pieces.isEmpty || lead != .here then lead.text ++ body else lead.text ++ '/' :: body⟩

/-- The path without its last part; none for a path without parts and for the root. -/
def parent? (p : Path) : Option Path :=
  let (lead, pieces) := p.cut
  match lastFirst pieces with
  | _ :: rest => some (spell lead (rest.dropWhile idle).reverse)
  | [] => if lead = .here then some ⟨""⟩ else none

/-- The last part, unless it is `..`. -/
def fileName? (p : Path) : Option String :=
  match lastFirst p.cut.2 with
  | [] => none
  | name :: _ => if name = ['.', '.'] then none else some (String.ofList name)

/-- Cuts a name at its last dot. A name without a dot, or with none but a first one, is all
stem. -/
def cutExtension (name : List Char) : List Char × Option (List Char) :=
  let back := name.reverse
  let tail := back.takeWhile (· != '.')
  match back.drop tail.length with
  | [] => (name, none)
  | _dot :: stem => if stem.isEmpty then (name, none) else (stem.reverse, some tail.reverse)

/-- What follows the last dot of the file name. -/
def extension? (p : Path) : Option String :=
  p.fileName?.bind fun name => (cutExtension name.toList).2.map String.ofList

def hasExtension (p : Path) (ext : String) : Bool := p.extension? == some ext

/-- Puts the extension in place of the file name's own, or behind it if it has none. A path
without a file name stays as it is. -/
def withExtension (p : Path) (ext : String) : Path :=
  let (lead, pieces) := p.cut
  match lastFirst pieces with
  | [] => p
  | name :: rest =>
    if name = ['.', '.'] then p
    else spell lead (((cutExtension name).1 ++ '.' :: ext.toList) :: rest).reverse

/-- The second path seen from the first; an absolute second path stands for itself. -/
def join (base rel : Path) : Path :=
  if rel.isAbsolute then rel
  else if base.chars.isEmpty || base.chars.getLast? = some '/' then ⟨base.text ++ rel.text⟩
  else ⟨base.text ++ "/" ++ rel.text⟩

/-- One move of a walk along a path. -/
inductive Step
  | stay
  | up
  | down (name : String)
  deriving DecidableEq, Repr

def Step.ofPiece (piece : List Char) : Step :=
  if piece = ['.'] then .stay
  else if piece = ['.', '.'] then .up
  else .down (String.ofList piece)

/-- The moves that the path asks for. A slash at the end asks to stay, which only a
directory allows. -/
def steps (p : Path) : List Step :=
  let pieces := Text.splitOn '/' p.chars
  let moves := (pieces.filter (· ≠ [])).map Step.ofPiece
  if p.chars.getLast? = some '/' then moves ++ [.stay] else moves

/-- The path without the slashes at its end. -/
def withoutSlashes (p : Path) : Path :=
  ⟨String.ofList (p.chars.reverse.dropWhile (· == '/')).reverse⟩

end Path
end ModularBuild
