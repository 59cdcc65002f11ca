/-!
# Cyclic redundancy checks

## Contents

The 32-bit check of IEEE 802.3, computed bit by bit with the reflected
polynomial.
-/

namespace PostingIndex

namespace Crc32

/-- The generator polynomial, lowest coefficient in the highest bit. -/
def polynomial : UInt32 :=
  0xEDB88320

def shift (remainder : UInt32) : UInt32 :=
  if remainder &&& 1 = 1 then
    (remainder >>> 1) ^^^ polynomial
  else
    remainder >>> 1

def addByte (remainder : UInt32) (byte : UInt8) : UInt32 :=
  let start := remainder ^^^ byte.toUInt32
  shift (shift (shift (shift (shift (shift (shift (shift start)))))))

def checksum (bytes : List UInt8) : UInt32 :=
  bytes.foldl addByte 0xFFFFFFFF ^^^ 0xFFFFFFFF

end Crc32

end PostingIndex
