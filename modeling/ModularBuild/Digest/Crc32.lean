import ModularBuild.Bytes

/-! The 32-bit cyclic redundancy check of gzip (reflected polynomial 0xedb88320). -/

namespace ModularBuild.Digest

def crcBit (crc : UInt32) : UInt32 :=
  if crc &&& 1 = 1 then (crc >>> 1) ^^^ 0xedb88320 else crc >>> 1

def crcByte (crc : UInt32) (b : UInt8) : UInt32 :=
  (List.range 8).foldl (fun acc _ => crcBit acc) (crc ^^^ b.toUInt32)

def crc32 (message : Bytes) : UInt32 := message.foldl crcByte 0xffffffff ^^^ 0xffffffff

/-- Four bytes, least significant first. -/
def littleEndian (w : UInt32) : Bytes :=
  [w.toUInt8, (w >>> 8).toUInt8, (w >>> 16).toUInt8, (w >>> 24).toUInt8]

end ModularBuild.Digest
