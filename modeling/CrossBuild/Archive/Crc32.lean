import CrossBuild.Text.Utf8

/-!
# CRC-32

The checksum of some bytes by the reflected polynomial, bit by bit.
-/

namespace CrossBuild.Crc32

/-- One bit of the division. -/
def bitStep (c : UInt32) : UInt32 :=
  if c &&& 1 = 1 then (0xEDB88320 : UInt32) ^^^ (c >>> 1) else c >>> 1

/-- One byte. -/
def byteStep (c : UInt32) (b : UInt8) : UInt32 :=
  let c := c ^^^ b.toUInt32
  bitStep (bitStep (bitStep (bitStep (bitStep (bitStep (bitStep (bitStep c)))))))

/-- The checksum. -/
def checksum (bytes : Bytes) : UInt32 :=
  bytes.foldl byteStep 0xFFFFFFFF ^^^ 0xFFFFFFFF

end CrossBuild.Crc32
