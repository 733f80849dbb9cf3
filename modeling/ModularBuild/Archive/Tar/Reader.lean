import ModularBuild.Archive.Tar
import ModularBuild.Text.DecimalDigit

/-! A reader of GNU tar archives. It knows the layout of a block and nothing of how an
archive is written: it cuts each header into fields, checks its sum, reads octal and binary
numbers, and gives an entry the long name that stands in front of it. -/

namespace ModularBuild.Tar

/-- What a reader learns of one entry. -/
structure Member where
  path : String
  kind : EntryKind
  mode : Nat
  owner : Nat
  group : Nat
  modified : Nat
  ownerName : String
  groupName : String
  deriving DecidableEq, Repr

namespace Reader

def isOctal (b : UInt8) : Bool := 48 ≤ b && b < 56

/-- Octal digits after blanks; a blank or a NUL ends them. -/
def octal? (b : Bytes) : Option Nat :=
  let b := b.dropWhile (· == 32)
  let digits := b.takeWhile isOctal
  let ended := match b.dropWhile isOctal with
    | [] => true
    | stop :: _ => stop == 0 || stop == 32
  if digits.isEmpty || !ended then none
  else some (Text.ofDigits 8 (digits.map fun d => d.toNat - 48))

/-- A number of a header. A mark in its first byte tells that the others are binary. -/
def number? (b : Bytes) : Option Nat :=
  match b with
  | [] => none
  | first :: rest =>
    if first = 0x80 then some (Text.ofDigits 256 (rest.map UInt8.toNat)) else octal? b

def untilNul (b : Bytes) : Bytes := b.takeWhile (· != 0)

/-- Cuts off fields of the given widths; what is left comes last. -/
def cut : List Nat → Bytes → List Bytes
  | [], b => [b]
  | width :: widths, b => b.take width :: cut widths (b.drop width)

/-- Name, mode, owner, group, size, time, checksum, flag, link name, magic, and the names of
owner and group. -/
def fieldWidths : List Nat := [100, 8, 8, 8, 12, 12, 8, 1, 100, 8, 32, 32]

def gnuMagic : Bytes := [117, 115, 116, 97, 114, 32, 32, 0]

/-- The sum of a block's bytes, with blanks in place of the checksum. -/
def blockSum (block : Bytes) : Nat :=
  let summed : Bytes := block.take 148 ++ List.replicate 8 32 ++ block.drop 156
  summed.foldl (fun acc x => acc + x.toNat) 0

structure Heading where
  name : Bytes
  mode : Nat
  owner : Nat
  group : Nat
  size : Nat
  modified : Nat
  flag : UInt8
  ownerName : Bytes
  groupName : Bytes

def heading? (block : Bytes) : Option Heading :=
  match cut fieldWidths block with
  | [name, mode, owner, group, size, modified, checksum, [flag], _, magic, ownerName, groupName,
      _] =>
    if magic = gnuMagic ∧ number? checksum = some (blockSum block) then do
      return ⟨untilNul name, ← number? mode, ← number? owner, ← number? group, ← number? size,
        ← number? modified, flag, untilNul ownerName, untilNul groupName⟩
    else none
  | _ => none

/-- The kind that a flag and contents stand for; directories have no contents. -/
def kind? (flag : UInt8) (contents : Bytes) : Option EntryKind :=
  if flag = 48 then some (.file contents)
  else if flag = 53 && contents.isEmpty then some .directory
  else none

def member? (h : Heading) (name contents : Bytes) : Option Member := do
  return ⟨← Bytes.text? name, ← kind? h.flag contents, h.mode, h.owner, h.group, h.modified,
    ← Bytes.text? h.ownerName, ← Bytes.text? h.groupName⟩

/-- The length of the blocks that hold so many bytes. -/
def wholeBlocks (size : Nat) : Nat := (size + (blockSize - 1)) / blockSize * blockSize

/-- Reads entries up to the first empty block. A long name that has been read is for the next
entry. What is left starts with the empty block. -/
def members? (longName : Option Bytes) (b : Bytes) : Option (List Member × Bytes) :=
  if b.length < blockSize then none
  else if (b.take blockSize).all (· == 0) then
    if longName.isSome then none else some ([], b)
  else do
    let h ← heading? (b.take blockSize)
    let rest := b.drop blockSize
    let contents := rest.take h.size
    let after := rest.drop (wholeBlocks h.size)
    if rest.length < wholeBlocks h.size then none
    else if h.flag = 76 then members? (some (untilNul contents)) after
    else
      let member ← member? h (longName.getD h.name) contents
      let (members, tail) ← members? none after
      return (member :: members, tail)
termination_by b.length
decreasing_by
  all_goals
    simp only [List.length_drop, blockSize] at *
    omega

end Reader

/-- The entries of an archive, and what comes after the last of them. -/
def read? (b : Bytes) : Option (List Member × Bytes) := Reader.members? none b

end ModularBuild.Tar
