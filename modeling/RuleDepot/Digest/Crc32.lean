/-!
The CRC-32 checksum that archives store beside each entry: a left fold over the bytes, bit by
bit, with the reflected polynomial.
-/

namespace RuleDepot.Digest

/-- One bit of the checksum register. -/
def Crc32.shift (crc : UInt32) : UInt32 :=
  if crc &&& 1 == 1 then (crc >>> 1) ^^^ 0xEDB88320 else crc >>> 1

/-- One byte of the checksum register. -/
def Crc32.feed (crc : UInt32) (byte : UInt8) : UInt32 :=
  Nat.fold 8 (fun _ _ r => Crc32.shift r) (crc ^^^ byte.toUInt32)

/-- The checksum of a byte string. -/
def crc32 (data : ByteArray) : UInt32 :=
  data.foldl Crc32.feed 0xFFFFFFFF ^^^ 0xFFFFFFFF

end RuleDepot.Digest
