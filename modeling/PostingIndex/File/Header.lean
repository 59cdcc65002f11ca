import PostingIndex.Bytes.LittleEndian
import PostingIndex.Fault

/-!
# File headers

An index file starts with a header of 64 bytes: the magic bytes, the format
version, the capacity, the counts and the places of the three sections.

## Contents

Headers, writing one and reading one.
-/

namespace PostingIndex

/-- The first 64 bytes of an index file. -/
structure FileHeader where
  magic : UInt32 := 0x58444942
  version : UInt32 := 1
  capacity : UInt32
  typeCount : UInt32
  numBlocks : UInt64 := 0
  freeCount : UInt64 := 0
  headTableOffset : UInt64 := 64
  blockTableOffset : UInt64 := 64
  freeTableOffset : UInt64 := 64
  createdAt : UInt64 := 0
deriving DecidableEq

namespace FileHeader

def size : Nat :=
  64

/-- The magic number of index files; its bytes spell BIDX. -/
def magicNumber : UInt32 :=
  0x58444942

def formatVersion : UInt32 :=
  1

def encode (header : FileHeader) : List UInt8 :=
  LittleEndian.bytes 4 header.magic.toNat ++
    (LittleEndian.bytes 4 header.version.toNat ++
    (LittleEndian.bytes 4 header.capacity.toNat ++
    (LittleEndian.bytes 4 header.typeCount.toNat ++
    (LittleEndian.bytes 8 header.numBlocks.toNat ++
    (LittleEndian.bytes 8 header.freeCount.toNat ++
    (LittleEndian.bytes 8 header.headTableOffset.toNat ++
    (LittleEndian.bytes 8 header.blockTableOffset.toNat ++
    (LittleEndian.bytes 8 header.freeTableOffset.toNat ++
      LittleEndian.bytes 8 header.createdAt.toNat))))))))

def readFields? (input : List UInt8) : Option FileHeader := do
  let (magic, input) ← LittleEndian.read? 4 input
  let (version, input) ← LittleEndian.read? 4 input
  let (capacity, input) ← LittleEndian.read? 4 input
  let (typeCount, input) ← LittleEndian.read? 4 input
  let (numBlocks, input) ← LittleEndian.read? 8 input
  let (freeCount, input) ← LittleEndian.read? 8 input
  let (headTableOffset, input) ← LittleEndian.read? 8 input
  let (blockTableOffset, input) ← LittleEndian.read? 8 input
  let (freeTableOffset, input) ← LittleEndian.read? 8 input
  let (createdAt, _) ← LittleEndian.read? 8 input
  return {
    magic := UInt32.ofNat magic
    version := UInt32.ofNat version
    capacity := UInt32.ofNat capacity
    typeCount := UInt32.ofNat typeCount
    numBlocks := UInt64.ofNat numBlocks
    freeCount := UInt64.ofNat freeCount
    headTableOffset := UInt64.ofNat headTableOffset
    blockTableOffset := UInt64.ofNat blockTableOffset
    freeTableOffset := UInt64.ofNat freeTableOffset
    createdAt := UInt64.ofNat createdAt }

def decode (input : List UInt8) : Except IndexError FileHeader :=
  match readFields? input with
  | none => .error .truncated
  | some header =>
      if header.magic ≠ magicNumber then
        .error .invalidMagic
      else if header.version ≠ formatVersion then
        .error (.unsupportedVersion header.version)
      else
        .ok header

end FileHeader

end PostingIndex
