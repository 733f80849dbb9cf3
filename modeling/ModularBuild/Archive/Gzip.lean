import ModularBuild.Digest.Crc32

/-! The gzip container. The header says nothing about time, name and system. How the contents
are packed is left open; unless told otherwise they are stored in blocks as they are, which
every reader accepts. -/

namespace ModularBuild.Gzip

def header : Bytes := [0x1f, 0x8b, 8, 0, 0, 0, 0, 0, 0, 0xff]

/-- The most that one stored block holds. -/
def blockLimit : Nat := 65535

/-- A 16-bit number, least significant byte first. -/
def short (n : Nat) : Bytes := [UInt8.ofNat n, UInt8.ofNat (n / 256)]

/-- A stored block; its length is followed by the complement of the length. -/
def block (isLast : Bool) (b : Bytes) : Bytes :=
  (if isLast then 1 else 0) :: short b.length ++ short (blockLimit - b.length) ++ b

def blocks : List Bytes → Bytes
  | [] => block true []
  | [b] => block true b
  | b :: rest => block false b ++ blocks rest

/-- The check sum and the length of the contents. -/
def trailer (b : Bytes) : Bytes :=
  Digest.littleEndian (Digest.crc32 b) ++ Digest.littleEndian (UInt32.ofNat b.length)

/-- The container around the contents, packed by some encoder. -/
def wrap (deflate : Bytes → Bytes) (b : Bytes) : Bytes := header ++ deflate b ++ trailer b

def stored (b : Bytes) : Bytes := blocks (Bytes.chunks blockLimit b)

/-- Reads stored blocks up to the last one. -/
def decodeBlocks? : Nat → Bytes → Option (Bytes × Bytes)
  | 0, _ => none
  | fuel + 1, final :: lo :: hi :: _ :: _ :: rest => do
    let length := lo.toNat + 256 * hi.toNat
    guard (length ≤ rest.length && final ≤ 1)
    if final = 1 then return (rest.take length, rest.drop length)
    let (more, after) ← decodeBlocks? fuel (rest.drop length)
    return (rest.take length ++ more, after)
  | _, _ => none

def decode? (b : Bytes) : Option Bytes := do
  guard (b.take header.length == header)
  let (contents, after) ← decodeBlocks? b.length (b.drop header.length)
  guard (after == trailer contents)
  return contents

end ModularBuild.Gzip
