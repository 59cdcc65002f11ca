import PostingIndex.File.Image

/-!
# Views of index files

A view answers questions about an index file without reading all of it.  Only
the head table is decoded when the view is opened; a page is parsed when a
chain runs through it.

## Contents

Views, opening one, and the questions that a view answers.
-/

namespace PostingIndex

/-- An opened index file. -/
structure FileView where
  file : FileBytes
  header : FileHeader
  heads : HeadTable
deriving DecidableEq

namespace FileView

def capacityField : Nat :=
  8

/-- Opens a file, checking that all tables lie within it. -/
def ofFile (file : FileBytes) : Except IndexError FileView := do
  let header ← File.readHeader file
  if header.capacity = 0 then
    throw (.corruptData capacityField)
  let heads ← File.readHeadTable file header
  if UInt32.size ≤ header.numBlocks.toNat then
    throw (.corruptData File.numBlocksField)
  let pagesEnd ← File.tableEnd header.blockTableOffset.toNat header.numBlocks.toNat
    (Page.size header.capacity.toNat) File.numBlocksField
  let freeEnd ← File.tableEnd header.freeTableOffset.toNat header.freeCount.toNat
    4 File.freeCountField
  if file.size < max pagesEnd freeEnd then
    throw .truncated
  return { file, header, heads }

def numBlocks (view : FileView) : UInt32 :=
  view.header.numBlocks.toUInt32

def types (view : FileView) : List EntityType :=
  view.heads.types

def known (view : FileView) (type : EntityType) : Except IndexError UInt32 :=
  view.heads.known type

def headOf (view : FileView) (entity : Entity) : Except IndexError (Option BlockId) :=
  view.heads.headOf entity

def loadBlock (view : FileView) (id : BlockId) : Except IndexError Block := do
  if view.numBlocks ≤ id then
    throw (.corruptChain id .beyondFile)
  let start := File.pageStart view.header id
  let raw ← File.readSection view.file start
    (start + Page.size view.header.capacity.toNat)
  let page ← Page.parse id view.header.capacity.toNat raw
  return page.block

def source (view : FileView) : BlockSource where
  count := view.numBlocks.toNat
  load := view.loadBlock

def postings (view : FileView) (entity : Entity) : Except IndexError (List Posting) := do
  let head ← view.headOf entity
  view.source.postings view.header.capacity.toNat head

def games (view : FileView) (expand : Bool) (entity : Entity) :
    Except IndexError (List GameId) :=
  (view.postings entity).map (Posting.gameList expand)

def freeIds (view : FileView) : Except IndexError (List BlockId) :=
  (File.readFreeList view.file view.header).map Ascending.sort

end FileView

end PostingIndex
