import UberJar.Bytes

namespace UberJar.Digest

namespace Crc32

/-- One shift of the remainder. -/
def shift (c : UInt32) : UInt32 := if c &&& 1 == 1 then (c >>> 1) ^^^ 0xEDB88320 else c >>> 1

/-- The remainder after one more byte. -/
def byte (c : UInt32) (b : UInt8) : UInt32 :=
  shift (shift (shift (shift (shift (shift (shift (shift (c ^^^ b.toUInt32))))))))

end Crc32

/-- The CRC-32 of a byte string. -/
def crc32 (bytes : Bytes) : UInt32 := bytes.foldl Crc32.byte 0xFFFFFFFF ^^^ 0xFFFFFFFF

end UberJar.Digest
