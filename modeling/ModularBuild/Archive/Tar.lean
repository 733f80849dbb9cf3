import ModularBuild.Archive.NameFault
import ModularBuild.Archive.Plan

/-! The tar format: each entry is a header block and its contents in whole blocks, and two
empty blocks end the archive. A path too long for the header goes into an entry of its own
in front of the one it belongs to. -/

namespace ModularBuild.Tar

def blockSize : Nat := 512
def nameSize : Nat := 100

def zeros (n : Nat) : Bytes := List.replicate n 0

def ascii (s : String) : Bytes := s.toList.map fun c => UInt8.ofNat c.toNat

/-- The value in octal digits that fill the field up to a NUL at its end. Digits beyond the
width are dropped from the front. -/
def octalField (width value : Nat) : Bytes :=
  let digits := ascii (String.ofList (Nat.toDigits 8 value))
  let places := width - 1
  List.replicate (places - digits.length) 48 ++ digits.drop (digits.length - places) ++ [0]

/-- The last digits of the value in base 256, most significant first. -/
def bigEndian (width value : Nat) : Bytes :=
  (List.range width).reverse.map fun place => UInt8.ofNat (value >>> (8 * place))

/-- A size in octal digits; one that has too many of them in eight binary bytes behind a
mark. -/
def sizeField (size : Nat) : Bytes :=
  if size < 0o100000000000 then octalField 12 size else 0x80 :: zeros 3 ++ bigEndian 8 size

/-- Fills the field up with NULs. -/
def paddedField (width : Nat) (b : Bytes) : Bytes := b.take width ++ zeros (width - b.length)

/-- The kinds of entries, each with its letter. -/
inductive Flag
  | regular
  | directory
  | longName
  deriving DecidableEq, Repr

def Flag.byte : Flag → UInt8
  | regular => 48
  | directory => 53
  | longName => 76

/-- What a header says; owners, times and devices are always the same. -/
structure Header where
  name : Bytes
  mode : Nat
  size : Nat
  flag : Flag
  deriving DecidableEq, Repr

/-- The fields before the checksum. -/
def Header.front (h : Header) : Bytes :=
  paddedField nameSize h.name ++ octalField 8 h.mode ++ octalField 8 0 ++ octalField 8 0 ++
    sizeField h.size ++ octalField 12 0

def Header.back (h : Header) : Bytes :=
  paddedField (blockSize - 156) (h.flag.byte :: zeros 100 ++ ascii "ustar  " ++ [0])

def sum (b : Bytes) : Nat := b.foldl (fun acc x => acc + x.toNat) 0

/-- The sum of the header's bytes, where the checksum itself counts as eight spaces. -/
def Header.checksum (h : Header) : Nat := sum h.front + 8 * 32 + sum h.back

def Header.block (h : Header) : Bytes := h.front ++ octalField 8 h.checksum ++ h.back

/-- Fills up with NULs to whole blocks. -/
def padded (b : Bytes) : Bytes := b ++ zeros ((blockSize - b.length % blockSize) % blockSize)

def record (h : Header) (contents : Bytes) : Bytes := h.block ++ padded contents

/-! ## Names -/

inductive NamePart
  | root
  | up
  | word (bytes : Bytes)
  deriving DecidableEq, Repr

def NamePart.ofPiece (piece : List Char) : NamePart :=
  if piece = ['.', '.'] then .up else .word (Bytes.ofText (String.ofList piece))

/-- The parts of a path without its idle ones. A path that is nothing but `.` keeps it. -/
def nameParts (p : Path) : List NamePart :=
  let (lead, pieces) := p.cut
  let parts := (pieces.filter fun piece => !Path.idle piece).map NamePart.ofPiece
  match lead with
  | .root => .root :: parts
  | .here => if parts.isEmpty then [.word [46]] else parts
  | .none => parts

/-- A name that is written piece by piece; a fault comes with what was written before it. -/
abbrev Writing := Except (NameFault × Bytes) Bytes

def append (field piece : Bytes) : Writing :=
  if nameSize < field.length + piece.length then .error (.tooLong, field)
  else if piece.contains 0 then .error (.nulByte, field)
  else .ok (field ++ piece)

def appendPart (field piece : Bytes) : Writing := do
  let field ← if field.isEmpty then pure field else append field [47]
  append field piece

/-- Only a name that has been cut short may end in two dots, for more may have followed. -/
def writeParts (cutShort : Bool) : Bytes → List NamePart → Writing
  | field, [] => .ok field
  | field, .root :: _ => .error (.absolute, field)
  | field, .up :: rest =>
    if cutShort && rest.isEmpty then appendPart field [46, 46] else .error (.parentPart, field)
  | field, .word w :: rest => do
    let field ← appendPart field w
    writeParts cutShort field rest

/-- The name field for a path. A slash at the end of the path is kept. -/
def writeName (cutShort : Bool) (p : Path) : Writing := do
  let parts := nameParts p
  if parts.isEmpty then throw (.noPart, [])
  let field ← writeParts cutShort [] parts
  if p.chars.getLast? = some '/' then append field [47] else return field

/-- The longest beginning of the text that fits into a number of bytes. -/
def textWithin : Nat → List Char → List Char
  | _, [] => []
  | room, c :: rest =>
    if c.utf8Size ≤ room then c :: textWithin (room - c.utf8Size) rest else []

/-- A new name over an old one: what lies behind the NUL of the new one stays. -/
def overwrite (old new : Bytes) : Bytes :=
  if old.length ≤ new.length then new else new ++ 0 :: old.drop (new.length + 1)

/-- A name in a header, and the entry in front of it if the path does not fit. -/
structure Naming where
  before : Bytes
  name : Bytes

def nameError (fault : NameFault × Bytes) : BuildError :=
  .entryName ((Bytes.text? fault.2).getD "") fault.1

def longNameHeader (length : Nat) : Header := ⟨ascii "././@LongLink", 0o644, length + 1, .longName⟩

def naming (path : String) : Except BuildError Naming :=
  match writeName false ⟨path⟩ with
  | .ok name => .ok ⟨[], name⟩
  | .error fault =>
    let bytes := Bytes.ofText path
    if bytes.length < nameSize then .error (nameError fault)
    else
      match writeName true ⟨String.ofList (textWithin nameSize path.toList)⟩ with
      | .ok name =>
        .ok ⟨record (longNameHeader bytes.length) (bytes ++ [0]), overwrite fault.2 name⟩
      | .error fault => .error (nameError fault)

/-! ## Archives -/

def contents : EntryKind → Bytes
  | .directory => []
  | .file b => b

def flag : EntryKind → Flag
  | .directory => .directory
  | .file _ => .regular

def encodeEntry (e : PlannedEntry) : Except BuildError Bytes := do
  let n ← naming e.path
  let b := contents e.kind
  return n.before ++ record ⟨n.name, e.mode, b.length, flag e.kind⟩ b

def encodeEntries : List PlannedEntry → Except BuildError Bytes
  | [] => .ok []
  | e :: rest => do
    let b ← encodeEntry e
    return b ++ (← encodeEntries rest)

def trailer : Bytes := zeros (2 * blockSize)

def encode (entries : List PlannedEntry) : Except BuildError Bytes := do
  return (← encodeEntries entries) ++ trailer

end ModularBuild.Tar
