import PostingIndex.Bytes.Lz4
import PostingIndex.File.HeadSection
import PostingIndex.File.Header
import PostingIndex.File.Page
import PostingIndex.Index.Audit

/-!
# Index files

An index file is a header, the compressed head table, one page for each block
number ever handed out, and the list of free blocks.

## Contents

Where the parts of a file lie, writing an index into a file, and reading an
index from one.  Reading checks everything that the parts say about each other
and audits the index.
-/

namespace PostingIndex

abbrev FileBytes :=
  Array UInt8

namespace File

/-!
## Parts of a file
-/

def numBlocksField : Nat :=
  0x10

def freeCountField : Nat :=
  0x18

/--
Where a table ends that starts at `start`.  An end that no 64-bit offset can
reach makes the header field at `field` corrupt.
-/
def tableEnd (start count entrySize field : Nat) : Except IndexError Nat :=
  if UInt64.size ≤ start + count * entrySize then
    .error (.corruptData field)
  else
    .ok (start + count * entrySize)

def checkSection (file : FileBytes) (start stop : Nat) : Except IndexError Unit :=
  if stop < start then
    .error (.corruptData start)
  else if file.size < stop then
    .error .truncated
  else
    .ok ()

def slice (file : FileBytes) (start stop : Nat) : List UInt8 :=
  (file.extract start stop).toList

def readSection (file : FileBytes) (start stop : Nat) :
    Except IndexError (List UInt8) := do
  checkSection file start stop
  return slice file start stop

def readHeader (file : FileBytes) : Except IndexError FileHeader :=
  if file.size < FileHeader.size then
    .error .truncated
  else
    FileHeader.decode (slice file 0 FileHeader.size)

def readHeadBytes (file : FileBytes) (header : FileHeader) :
    Except IndexError (List UInt8) := do
  let packed ← readSection file header.headTableOffset.toNat
    header.blockTableOffset.toNat
  match Lz4.decompress? packed with
  | none => .error .compression
  | some bytes => .ok bytes

def readHeadTable (file : FileBytes) (header : FileHeader) :
    Except IndexError HeadTable := do
  let bytes ← readHeadBytes file header
  HeadSection.parse header.typeCount.toNat bytes

def pageStart (header : FileHeader) (id : BlockId) : Nat :=
  header.blockTableOffset.toNat + id.toNat * Page.size header.capacity.toNat

def pageBytes (file : FileBytes) (header : FileHeader) (id : BlockId) : List UInt8 :=
  let start := pageStart header id
  slice file start (start + Page.size header.capacity.toNat)

def readIds (read : List BlockId) : Nat -> List UInt8 -> Option (List BlockId)
  | 0, _ => some read.reverse
  | count + 1, input =>
      match LittleEndian.read? 4 input with
      | none => none
      | some (id, input) => readIds (UInt32.ofNat id :: read) count input

def readFreeList (file : FileBytes) (header : FileHeader) :
    Except IndexError (List BlockId) := do
  let start := header.freeTableOffset.toNat
  let stop ← tableEnd start header.freeCount.toNat 4 freeCountField
  let bytes ← readSection file start stop
  match readIds [] header.freeCount.toNat bytes with
  | none => .error .truncated
  | some ids => .ok ids

/-!
## Writing
-/

def pageOf (arena : Arena) (free : IdTree) (id : BlockId) : Page :=
  { block := (arena.get? id).getD Block.empty
    free := free.contains id }

def allocatedIds (index : Index) : List BlockId :=
  (List.range index.pool.numBlocks.toNat).map UInt32.ofNat

def headerOf (index : Index) (createdAt : UInt64) (headBytes : Nat) : FileHeader :=
  let blockTable := FileHeader.size + headBytes
  let numBlocks := index.pool.numBlocks.toNat
  { capacity := UInt32.ofNat index.capacity
    typeCount := UInt32.ofNat index.heads.types.length
    numBlocks := UInt64.ofNat numBlocks
    freeCount := UInt64.ofNat index.pool.free.size
    headTableOffset := UInt64.ofNat FileHeader.size
    blockTableOffset := UInt64.ofNat blockTable
    freeTableOffset := UInt64.ofNat (blockTable + numBlocks * Page.size index.capacity)
    createdAt }

/--
The file of an index, written at the given time, with its head table packed by
`pack`.  Reading unpacks whatever `Lz4.decompress?` can unpack.
-/
def writeWith (pack : List UInt8 -> List UInt8) (index : Index) (createdAt : UInt64) :
    FileBytes :=
  let heads := pack (HeadSection.encode index.heads)
  let freeIds := index.pool.free.tree
  let pages := (allocatedIds index).flatMap fun id =>
    Page.encode index.capacity (pageOf index.arena freeIds id)
  let free := index.pool.free.ids.flatMap fun id => LittleEndian.bytes 4 id.toNat
  ((headerOf index createdAt heads.length).encode ++
    (heads ++ (pages ++ free))).toArray

def write (index : Index) (createdAt : UInt64) : FileBytes :=
  writeWith Lz4.compress index createdAt

/-!
## Reading
-/

def readPages (file : FileBytes) (header : FileHeader) (count : Nat) :
    Except IndexError (List Page) :=
  ((List.range count).map UInt32.ofNat).mapM fun id =>
    Page.parse id header.capacity.toNat (pageBytes file header id)

def markedFree (pages : List Page) : List BlockId :=
  pages.zipIdx.filterMap fun (page, number) =>
    if page.free then some (UInt32.ofNat number) else none

def readTables (file : FileBytes) (header : FileHeader) (heads : HeadTable) :
    Except IndexError Index := do
  let capacity := header.capacity.toNat
  let numBlocks := header.numBlocks.toNat
  let blockTable := header.blockTableOffset.toNat
  let freeTable := header.freeTableOffset.toNat
  checkSection file blockTable freeTable
  let pagesEnd ← tableEnd blockTable numBlocks (Page.size capacity) numBlocksField
  if UInt32.size ≤ numBlocks ∨ pagesEnd ≠ freeTable then
    throw (.corruptData numBlocksField)
  let pages ← readPages file header numBlocks
  let free ← readFreeList file header
  if Ascending.sort free ≠ markedFree pages then
    throw (.corruptData freeTable)
  let index ← Index.ofParts capacity (Pool.ofParts (UInt32.ofNat numBlocks) free) heads
    { blocks := (pages.map Page.block).toArray }
  index.verify
  return index

def read (file : FileBytes) : Except IndexError Index := do
  let header ← readHeader file
  let heads ← readHeadTable file header
  readTables file header heads

end File

end PostingIndex
