import PostingIndex.Proofs.Audit
import PostingIndex.Proofs.FileReading
import PostingIndex.Proofs.FreePages
import PostingIndex.Proofs.PageCodec
import PostingIndex.Proofs.TableCodec
import PostingIndex.Proofs.Unpacking

/-!
# Reading back what was written: files

A file is read back from the sections that it was written in.  This takes an
index whose arena has a block for every number that was handed out, whose blocks
fit on a page, and whose links and heads a file can tell from none.  What reading
comes to then is what the audit says of the index.

## Contents

The bytes that lie at a place of a file, the indexes that can be encoded and
those that can be stored, the fields of the header, the sections that are read
back, and the whole index.
-/

namespace PostingIndex

namespace File

/-!
## Places of bytes
-/

/-- Some bytes lie at a place of a file. -/
def LiesAt (file : FileBytes) (start : Nat) (bytes : List UInt8) : Prop :=
  ∃ front rest, file.toList = front ++ (bytes ++ rest) ∧ front.length = start

theorem liesAt_toArray (bytes : List UInt8) : LiesAt bytes.toArray 0 bytes :=
  ⟨[], [], by simp, rfl⟩

namespace LiesAt

variable {file : FileBytes} {start : Nat} {bytes first second : List UInt8}

theorem left (h : LiesAt file start (first ++ second)) : LiesAt file start first := by
  rcases h with ⟨front, rest, hfile, hstart⟩
  exact ⟨front, second ++ rest, by rw [hfile, List.append_assoc], hstart⟩

theorem right (h : LiesAt file start (first ++ second)) :
    LiesAt file (start + first.length) second := by
  rcases h with ⟨front, rest, hfile, hstart⟩
  refine ⟨front ++ first, rest, ?_, ?_⟩
  · rw [hfile, List.append_assoc, List.append_assoc]
  · rw [List.length_append, hstart]

theorem le_size (h : LiesAt file start bytes) : start + bytes.length ≤ file.size := by
  rcases h with ⟨front, rest, hfile, hstart⟩
  rw [← Array.length_toList, hfile, List.length_append, List.length_append, hstart]
  omega

theorem slice (h : LiesAt file start bytes) :
    slice file start (start + bytes.length) = bytes := by
  rcases h with ⟨front, rest, hfile, hstart⟩
  rw [File.slice, Array.toList_extract, List.extract_eq_take_drop, hfile, ← hstart]
  simp

theorem readSection (h : LiesAt file start bytes) :
    readSection file start (start + bytes.length) = .ok bytes :=
  readSection_eq_ok.mpr ⟨⟨Nat.le_add_right _ _, h.le_size⟩, h.slice⟩

theorem flatMap {α : Type _} {items : List α} {piece : α -> List UInt8} {size : Nat}
    (h : LiesAt file start (items.flatMap piece))
    (hsize : ∀ item ∈ items, (piece item).length = size) {number : Nat} {item : α}
    (hitem : items[number]? = some item) :
    LiesAt file (start + number * size) (piece item) := by
  induction items generalizing start number with
  | nil =>
      simp at hitem
  | cons head rest ih =>
      rw [List.flatMap_cons] at h
      cases number with
      | zero =>
          have hhead : head = item := by simpa using hitem
          rw [← hhead, Nat.zero_mul, Nat.add_zero]
          exact h.left
      | succ number =>
          have hrest := ih h.right (fun other hmem => hsize other (List.mem_cons_of_mem _ hmem))
            (by simpa using hitem)
          rw [hsize head (by simp), Nat.add_assoc, Nat.add_comm size, ← Nat.succ_mul]
            at hrest
          exact hrest

end LiesAt

end File

/-!
## Indexes that can be stored
-/

namespace Index

def Pageable (index : Index) : Prop :=
  index.arena.Each fun block => block.postings.length ≤ index.capacity

/-- What the parts of an index must satisfy to be found in its file again. -/
structure Encodable (index : Index) : Prop where
  full : index.arena.size = index.pool.numBlocks.toNat
  fits : index.arena.Each (Block.FitsPage index.capacity)
  linked : ∀ row ∈ index.heads.rows, ∀ head ∈ row.heads, head ≠ some Link.noBlock
  freeWithin : index.pool.FreeWithin

/-- What an index must satisfy to be read back as it was written. -/
structure Storable (index : Index) : Prop where
  verified : index.verify = .ok ()
  full : index.arena.size = index.pool.numBlocks.toNat
  fits : index.arena.Each (Block.FitsPage index.capacity)

theorem capacity_le (index : Index) : index.capacity ≤ 65535 :=
  index.usable_config.bounded

theorem length_types_le (index : Index) : index.heads.types.length ≤ 6 := by
  have hsub : index.heads.types ⊆ EntityType.all := fun type _ => EntityType.mem_all type
  exact (List.subperm_of_subset index.nodup_types hsub).length_le

theorem size_free_le (index : Index) : index.pool.free.size ≤ 2 ^ 32 :=
  IdSet.size_le fun id _ => id.toNat_lt

theorem Encodable.pageable {index : Index} (h : index.Encodable) : index.Pageable :=
  fun block hmem => (h.fits block hmem).left

theorem size_heads_lt {index : Index}
    (hlength : (HeadSection.encode index.heads).length < 2 ^ 32) :
    ∀ row ∈ index.heads.rows, row.heads.size < 2 ^ 32 :=
  fun _ hrow =>
    Nat.lt_of_le_of_lt (HeadSection.size_le_length_encode index.nodup_types hrow) hlength

theorem Encodable.writable {index : Index} (h : index.Encodable)
    (hlength : (HeadSection.encode index.heads).length < 2 ^ 32) :
    index.heads.Writable where
  distinct := index.nodup_types
  short := size_heads_lt hlength
  linked := h.linked

namespace Storable

variable {index : Index}

theorem laid (h : index.Storable) : index.Laid index.readLayout :=
  verify_eq_ok.mp h.verified

theorem head_ne_noBlock (h : index.Storable) {row : HeadRow} (hrow : row ∈ index.heads.rows)
    {head : Option BlockId} (hhead : head ∈ row.heads) : head ≠ some Link.noBlock := by
  intro heq
  rcases Array.mem_iff_getElem?.mp hhead with ⟨place, hplace⟩
  have hat : index.heads.headAt { type := row.type, place } = some Link.noBlock := by
    rw [HeadTable.headAt, HeadTable.heads?_eq_of_mem index.nodup_types hrow]
    show row.heads[place]?.join = _
    rw [hplace, heq]
    rfl
  rw [← h.laid.starts, chainHead_eq_head?] at hat
  have hlt := UInt32.lt_iff_toNat_lt.mp (h.laid.lt_numBlocks (List.mem_of_head? hat))
  have hsmall := index.pool.numBlocks.toNat_lt
  rw [show Link.noBlock.toNat = 2 ^ 32 - 1 from rfl] at hlt
  omega

theorem encodable (h : index.Storable) : index.Encodable where
  full := h.full
  fits := h.fits
  linked := fun _ hrow _ hhead => h.head_ne_noBlock hrow hhead
  freeWithin := h.laid.freeWithin

end Storable

end Index

namespace File

/-!
## The header
-/

section Header

variable {index : Index} {headBytes : Nat} (createdAt : UInt64)

theorem size_page_lt (index : Index) : Page.size index.capacity < 2 ^ 20 := by
  have hcapacity := Index.capacity_le index
  simp only [Page.size, Page.headerSize, Page.postingSize]
  omega

theorem fileEnd_lt (index : Index) (hbytes : headBytes < 2 ^ 33 + 6) :
    FileHeader.size + headBytes +
        index.pool.numBlocks.toNat * Page.size index.capacity +
          index.pool.free.size * 4 < 2 ^ 64 := by
  have hpages : index.pool.numBlocks.toNat * Page.size index.capacity ≤ 2 ^ 32 * 2 ^ 20 :=
    Nat.mul_le_mul (Nat.le_of_lt index.pool.numBlocks.toNat_lt)
      (Nat.le_of_lt (size_page_lt index))
  have hfree := index.size_free_le
  have hheader : FileHeader.size = 64 := rfl
  omega

theorem capacity_headerOf :
    (headerOf index createdAt headBytes).capacity.toNat = index.capacity := by
  have hcapacity := Index.capacity_le index
  exact UInt32.toNat_ofNat_of_lt' (by
    show index.capacity < 2 ^ 32
    omega)

theorem typeCount_headerOf :
    (headerOf index createdAt headBytes).typeCount.toNat = index.heads.types.length := by
  have hlength := Index.length_types_le index
  exact UInt32.toNat_ofNat_of_lt' (by
    show index.heads.types.length < 2 ^ 32
    omega)

theorem numBlocks_headerOf :
    (headerOf index createdAt headBytes).numBlocks.toNat = index.pool.numBlocks.toNat := by
  have hnumBlocks := index.pool.numBlocks.toNat_lt
  exact UInt64.toNat_ofNat_of_lt' (by
    show index.pool.numBlocks.toNat < 2 ^ 64
    omega)

theorem freeCount_headerOf :
    (headerOf index createdAt headBytes).freeCount.toNat = index.pool.free.size := by
  have hfree := index.size_free_le
  exact UInt64.toNat_ofNat_of_lt' (by
    show index.pool.free.size < 2 ^ 64
    omega)

theorem headTableOffset_headerOf :
    (headerOf index createdAt headBytes).headTableOffset.toNat = FileHeader.size :=
  rfl

theorem blockTableOffset_headerOf (hbytes : headBytes < 2 ^ 33 + 6) :
    (headerOf index createdAt headBytes).blockTableOffset.toNat =
      FileHeader.size + headBytes := by
  have hend := fileEnd_lt index hbytes
  exact UInt64.toNat_ofNat_of_lt' (by
    show FileHeader.size + headBytes < 2 ^ 64
    omega)

theorem freeTableOffset_headerOf (hbytes : headBytes < 2 ^ 33 + 6) :
    (headerOf index createdAt headBytes).freeTableOffset.toNat =
      FileHeader.size + headBytes +
        index.pool.numBlocks.toNat * Page.size index.capacity := by
  have hend := fileEnd_lt index hbytes
  exact UInt64.toNat_ofNat_of_lt' (by
    show FileHeader.size + headBytes +
      index.pool.numBlocks.toNat * Page.size index.capacity < 2 ^ 64
    omega)

theorem pagesEnd_headerOf (hbytes : headBytes < 2 ^ 33 + 6) :
    (headerOf index createdAt headBytes).blockTableOffset.toNat +
      (headerOf index createdAt headBytes).numBlocks.toNat *
        Page.size (headerOf index createdAt headBytes).capacity.toNat =
          (headerOf index createdAt headBytes).freeTableOffset.toNat := by
  rw [blockTableOffset_headerOf _ hbytes, numBlocks_headerOf, capacity_headerOf,
    freeTableOffset_headerOf _ hbytes]

end Header

def fileEnd (header : FileHeader) : Nat :=
  header.freeTableOffset.toNat + header.freeCount.toNat * 4

structure WrittenHeader (header : FileHeader) (packed : List UInt8) (index : Index) :
    Prop where
  unpacked : Lz4.decompress? packed = some (HeadSection.encode index.heads)
  written : ∃ createdAt, header = headerOf index createdAt packed.length

namespace WrittenHeader

variable {header : FileHeader} {packed : List UInt8} {index : Index}

theorem packed_length_lt (h : WrittenHeader header packed index) :
    packed.length < 2 ^ 33 + 6 :=
  (Lz4.bounds_of_decompress? h.unpacked).right

theorem numBlocks_eq (h : WrittenHeader header packed index) :
    header.numBlocks.toNat = index.pool.numBlocks.toNat := by
  rcases h.written with ⟨_, rfl⟩
  exact numBlocks_headerOf _

theorem numBlocks_lt (h : WrittenHeader header packed index) :
    header.numBlocks.toNat < UInt32.size := by
  rw [h.numBlocks_eq]
  exact index.pool.numBlocks.toNat_lt

theorem freeCount_eq (h : WrittenHeader header packed index) :
    header.freeCount.toNat = index.pool.free.size := by
  rcases h.written with ⟨_, rfl⟩
  exact freeCount_headerOf _

theorem blockTableOffset_eq (h : WrittenHeader header packed index) :
    header.blockTableOffset.toNat = FileHeader.size + packed.length := by
  rcases h.written with ⟨_, rfl⟩
  exact blockTableOffset_headerOf _ h.packed_length_lt

theorem freeTableOffset_eq (h : WrittenHeader header packed index) :
    header.freeTableOffset.toNat =
      FileHeader.size + packed.length +
        index.pool.numBlocks.toNat * Page.size index.capacity := by
  rcases h.written with ⟨_, rfl⟩
  exact freeTableOffset_headerOf _ h.packed_length_lt

theorem pagesEnd (h : WrittenHeader header packed index) :
    header.blockTableOffset.toNat +
      header.numBlocks.toNat * Page.size header.capacity.toNat =
        header.freeTableOffset.toNat := by
  rcases h.written with ⟨_, rfl⟩
  exact pagesEnd_headerOf _ h.packed_length_lt

theorem fileEnd_eq (h : WrittenHeader header packed index) :
    fileEnd header =
      FileHeader.size + packed.length +
        index.pool.numBlocks.toNat * Page.size index.capacity +
          index.pool.free.size * 4 := by
  rw [fileEnd, h.freeTableOffset_eq, h.freeCount_eq]

theorem fileEnd_lt (h : WrittenHeader header packed index) : fileEnd header < 2 ^ 64 := by
  rw [h.fileEnd_eq]
  exact File.fileEnd_lt index h.packed_length_lt

end WrittenHeader

/-!
## Sections
-/

def writtenPages (index : Index) : List Page :=
  (allocatedIds index).map (pageOf index.arena index.pool.free.tree)

theorem length_writtenPages (index : Index) :
    (writtenPages index).length = index.pool.numBlocks.toNat := by
  simp [writtenPages, allocatedIds]

theorem getElem?_writtenPages {index : Index} {number : Nat}
    (h : number < index.pool.numBlocks.toNat) :
    (writtenPages index)[number]? =
      some (pageOf index.arena index.pool.free.tree (UInt32.ofNat number)) := by
  simp [writtenPages, allocatedIds, h]

theorem block_of_mem_writtenPages {index : Index} {page : Page}
    (hpage : page ∈ writtenPages index) :
    page.block ∈ index.arena.blocks ∨ page.block = Block.empty := by
  rcases List.mem_map.mp hpage with ⟨id, _, heq⟩
  rw [← heq]
  show (index.arena.get? id).getD Block.empty ∈ _ ∨ (index.arena.get? id).getD Block.empty = _
  cases hget : index.arena.get? id with
  | none =>
      exact Or.inr rfl
  | some block =>
      exact Or.inl (Array.mem_of_getElem? hget)

theorem length_le_of_mem_writtenPages {index : Index} (h : index.Pageable) {page : Page}
    (hpage : page ∈ writtenPages index) : page.block.postings.length ≤ index.capacity := by
  rcases block_of_mem_writtenPages hpage with hmem | hempty
  · exact h page.block hmem
  · rw [hempty]
    exact Nat.zero_le _

theorem fitsPage_of_mem_writtenPages {index : Index} (h : index.Encodable) {page : Page}
    (hpage : page ∈ writtenPages index) : page.block.FitsPage index.capacity := by
  rcases block_of_mem_writtenPages hpage with hmem | hempty
  · exact h.fits page.block hmem
  · rw [hempty]
    exact ⟨Nat.zero_le _, fun hnext => by cases hnext⟩

def pagesBytes (index : Index) : List UInt8 :=
  (writtenPages index).flatMap (Page.encode index.capacity)

def freeBytes (index : Index) : List UInt8 :=
  index.pool.free.ids.flatMap fun id => LittleEndian.bytes 4 id.toNat

theorem length_pagesBytes {index : Index} (h : index.Pageable) :
    (pagesBytes index).length =
      index.pool.numBlocks.toNat * Page.size index.capacity := by
  have hsizes : (writtenPages index).map (fun page =>
      (Page.encode index.capacity page).length) =
        List.replicate (writtenPages index).length (Page.size index.capacity) := by
    apply List.eq_replicate_iff.mpr
    constructor
    · exact List.length_map _
    · intro length hmem
      rcases List.mem_map.mp hmem with ⟨page, hpage, heq⟩
      rw [← heq]
      exact Page.length_encode (length_le_of_mem_writtenPages h hpage)
  rw [pagesBytes, List.length_flatMap, hsizes, List.sum_replicate_nat,
    length_writtenPages]

theorem length_freeBytes (index : Index) :
    (freeBytes index).length = index.pool.free.size * 4 :=
  length_flatMap_bytes _

structure HasSections (file : FileBytes) (header : FileHeader) (packed : List UInt8)
    (index : Index) : Prop where
  header : LiesAt file 0 header.encode
  heads : LiesAt file FileHeader.size packed
  pages : LiesAt file (FileHeader.size + packed.length) (pagesBytes index)
  free : LiesAt file (FileHeader.size + packed.length +
    index.pool.numBlocks.toNat * Page.size index.capacity) (freeBytes index)

theorem hasSections_toArray {index : Index} (h : index.Pageable) (header : FileHeader)
    (packed : List UInt8) :
    HasSections (header.encode ++ (packed ++ (pagesBytes index ++ freeBytes index))).toArray
      header packed index := by
  have hall := liesAt_toArray
    (header.encode ++ (packed ++ (pagesBytes index ++ freeBytes index)))
  have hrest := hall.right
  rw [FileHeader.length_encode, Nat.zero_add] at hrest
  have hfree := hrest.right.right
  rw [length_pagesBytes h] at hfree
  exact ⟨hall.left, hrest.left, hrest.right.left, hfree⟩

theorem writeWith_eq (pack : List UInt8 -> List UInt8) (index : Index) (createdAt : UInt64) :
    writeWith pack index createdAt =
      ((headerOf index createdAt (pack (HeadSection.encode index.heads)).length).encode ++
        (pack (HeadSection.encode index.heads) ++
          (pagesBytes index ++ freeBytes index))).toArray := by
  have hpages : ((allocatedIds index).flatMap fun id =>
      Page.encode index.capacity (pageOf index.arena index.pool.free.tree id)) =
        pagesBytes index := by
    rw [pagesBytes, writtenPages, List.flatMap_map]
  rw [writeWith, hpages]
  rfl

theorem hasSections_writeWith {index : Index} (h : index.Encodable)
    (pack : List UInt8 -> List UInt8) (createdAt : UInt64) :
    HasSections (writeWith pack index createdAt)
      (headerOf index createdAt (pack (HeadSection.encode index.heads)).length)
      (pack (HeadSection.encode index.heads)) index := by
  rw [writeWith_eq]
  exact hasSections_toArray h.pageable _ _

/-!
## Reading the sections
-/

section Sections

variable {file : FileBytes} {header : FileHeader} {packed : List UInt8} {index : Index}
  (createdAt : UInt64)

theorem readHeader_of_liesAt (hmagic : header.magic = FileHeader.magicNumber)
    (hversion : header.version = FileHeader.formatVersion)
    (hlies : LiesAt file 0 header.encode) : readHeader file = .ok header := by
  have hsize := hlies.le_size
  have hslice := hlies.slice
  rw [Nat.zero_add, FileHeader.length_encode] at hsize hslice
  rw [readHeader, if_neg (Nat.not_lt.mpr hsize), hslice]
  exact FileHeader.decode_encode hmagic hversion

theorem readHeader_of_sections (hmagic : header.magic = FileHeader.magicNumber)
    (hversion : header.version = FileHeader.formatVersion)
    (hsections : HasSections file header packed index) : readHeader file = .ok header :=
  readHeader_of_liesAt hmagic hversion hsections.header

theorem readHeadTable_of_liesAt (hlies : LiesAt file FileHeader.size packed)
    (hpacked : Lz4.decompress? packed = some (HeadSection.encode index.heads)) :
    readHeadTable file (headerOf index createdAt packed.length) =
      .ok { rows := index.heads.rows.map HeadRow.reread } := by
  have hbounds := Lz4.bounds_of_decompress? hpacked
  apply readHeadTable_eq_ok.mpr
  refine ⟨packed, HeadSection.encode index.heads, ?_, hpacked, ?_⟩
  · rw [headTableOffset_headerOf, blockTableOffset_headerOf _ hbounds.right]
    exact hlies.readSection
  · rw [typeCount_headerOf]
    exact HeadSection.parse_encode index.nodup_types (Index.size_heads_lt hbounds.left)

theorem readHeadTable_of_sections (h : index.Encodable)
    (hsections : HasSections file header packed index)
    (hpacked : Lz4.decompress? packed = some (HeadSection.encode index.heads)) :
    readHeadTable file (headerOf index createdAt packed.length) = .ok index.heads := by
  have hlength := (Lz4.bounds_of_decompress? hpacked).left
  rw [readHeadTable_of_liesAt createdAt hsections.heads hpacked,
    (h.writable hlength).map_reread]

theorem freeTable_le_size (h : index.Pageable) (hbytes : packed.length < 2 ^ 33 + 6)
    (hlies : LiesAt file (FileHeader.size + packed.length) (pagesBytes index)) :
    (headerOf index createdAt packed.length).freeTableOffset.toNat ≤ file.size := by
  rw [freeTableOffset_headerOf _ hbytes, ← length_pagesBytes h]
  exact hlies.le_size

theorem readPages_of_liesAt (h : index.Pageable) (hbytes : packed.length < 2 ^ 33 + 6)
    (hlies : LiesAt file (FileHeader.size + packed.length) (pagesBytes index)) :
    readPages file (headerOf index createdAt packed.length)
      index.pool.numBlocks.toNat = .ok ((writtenPages index).map Page.reread) := by
  have hcapacity := Index.capacity_le index
  have hpage : ∀ id ∈ allocatedIds index,
      Page.parse id index.capacity
        (pageBytes file (headerOf index createdAt packed.length) id) =
          .ok (pageOf index.arena index.pool.free.tree id).reread := by
    intro id hid
    rcases List.mem_map.mp hid with ⟨number, hnumber, heq⟩
    have hlt := List.mem_range.mp hnumber
    have hsmall : number < 2 ^ 32 := Nat.lt_trans hlt index.pool.numBlocks.toNat_lt
    have hget := getElem?_writtenPages hlt
    have hfits := length_le_of_mem_writtenPages h (List.mem_of_getElem? hget)
    have hlies := hlies.flatMap
      (fun page hmem => Page.length_encode (length_le_of_mem_writtenPages h hmem)) hget
    have hslice := hlies.slice
    rw [Page.length_encode hfits] at hslice
    have hbytesOfPage : pageBytes file (headerOf index createdAt packed.length) id =
        Page.encode index.capacity (pageOf index.arena index.pool.free.tree id) := by
      rw [pageBytes, pageStart, blockTableOffset_headerOf _ hbytes, capacity_headerOf,
        ← heq, UInt32.toNat_ofNat_of_lt' hsmall]
      exact hslice
    rw [hbytesOfPage]
    rw [heq] at hfits
    exact Page.parse_encode id (by omega) hfits
  rw [readPages, capacity_headerOf]
  show (allocatedIds index).mapM _ = _
  rw [Outcome.mapM_eq_ok, writtenPages, List.map_map, List.forall₂_map_right_iff,
    List.forall₂_same]
  exact hpage

theorem readPages_of_sections (h : index.Encodable) (hbytes : packed.length < 2 ^ 33 + 6)
    (hsections : HasSections file header packed index) :
    readPages file (headerOf index createdAt packed.length)
      index.pool.numBlocks.toNat = .ok (writtenPages index) := by
  have hpages : (writtenPages index).map Page.reread = (writtenPages index).map id :=
    List.map_congr_left fun page hmem =>
      Page.reread_of_ne (fitsPage_of_mem_writtenPages h hmem).right
  rw [readPages_of_liesAt createdAt h.pageable hbytes hsections.pages, hpages, List.map_id]

theorem readFreeList_of_sections (hbytes : packed.length < 2 ^ 33 + 6)
    (hsections : HasSections file header packed index) :
    readFreeList file (headerOf index createdAt packed.length) =
      .ok index.pool.free.ids := by
  have hread := hsections.free.readSection
  rw [length_freeBytes] at hread
  have hids := readIds_append [] index.pool.free.ids []
  rw [List.append_nil] at hids
  apply readFreeList_eq_ok.mpr
  rw [freeTableOffset_headerOf _ hbytes, freeCount_headerOf]
  exact ⟨fileEnd_lt index hbytes, freeBytes index, hread, hids⟩

end Sections

theorem markedFree_writtenPages {index : Index} (h : index.Encodable) :
    markedFree (writtenPages index) = index.pool.free.ids := by
  have hlength : (writtenPages index).length ≤ 2 ^ 32 := by
    rw [length_writtenPages]
    exact Nat.le_of_lt index.pool.numBlocks.toNat_lt
  apply Ascending.ext_of_key id (markedFree_ascending hlength) index.pool.free.ascending
  intro id
  rw [mem_markedFree]
  constructor
  · intro hmarked
    rcases hmarked with ⟨number, page, hget, hfree, hid⟩
    have hlt := (List.getElem?_eq_some_iff.mp hget).choose
    rw [length_writtenPages] at hlt
    rw [getElem?_writtenPages hlt, Option.some.injEq] at hget
    rw [← hget, hid] at hfree
    have hin : id ∈ index.pool.free := by simpa [pageOf] using hfree
    exact hin
  · intro hmem
    have hlt := h.freeWithin id hmem
    refine ⟨id.toNat, _, getElem?_writtenPages hlt, ?_, UInt32.ofNat_toNat⟩
    rw [UInt32.ofNat_toNat]
    have hin : id ∈ index.pool.free := hmem
    simp [pageOf, hin]

theorem blocks_writtenPages {index : Index} (h : index.Encodable) :
    ((writtenPages index).map Page.block).toArray = index.arena.blocks := by
  have hfull : index.arena.blocks.size = index.pool.numBlocks.toNat := h.full
  apply Array.ext_getElem?
  intro number
  by_cases hlt : number < index.pool.numBlocks.toNat
  · have hsmall : number < 2 ^ 32 := Nat.lt_trans hlt index.pool.numBlocks.toNat_lt
    have hsize : number < index.arena.blocks.size := hfull ▸ hlt
    rw [List.getElem?_toArray, List.getElem?_map, getElem?_writtenPages hlt]
    simp [pageOf, Arena.get?, UInt32.toNat_ofNat_of_lt' hsmall, hsize]
  · have hsize : index.arena.blocks.size ≤ number := hfull ▸ Nat.not_lt.mp hlt
    rw [List.getElem?_toArray, List.getElem?_eq_none, Array.getElem?_eq_none hsize]
    rw [List.length_map, length_writtenPages]
    exact Nat.not_lt.mp hlt

/-- The parts of an encodable index are found in its file. -/
theorem parts_writeWith {index : Index} (h : index.Encodable)
    {pack : List UInt8 -> List UInt8}
    (hpack : Lz4.decompress? (pack (HeadSection.encode index.heads)) =
      some (HeadSection.encode index.heads)) (createdAt : UInt64) :
    Parts (writeWith pack index createdAt)
      (headerOf index createdAt (pack (HeadSection.encode index.heads)).length)
      index.heads (writtenPages index) index.pool.free.ids index := by
  have hsections := hasSections_writeWith h pack createdAt
  have hbytes := (Lz4.bounds_of_decompress? hpack).right
  constructor
  · exact readHeader_of_sections rfl rfl hsections
  · exact readHeadTable_of_sections createdAt h hsections hpack
  · rw [numBlocks_headerOf]
    exact readPages_of_sections createdAt h hbytes hsections
  · exact readFreeList_of_sections createdAt hbytes hsections
  · exact pagesEnd_headerOf createdAt hbytes
  · exact freeTable_le_size createdAt h.pageable hbytes hsections.pages
  · rw [numBlocks_headerOf]
    exact index.pool.numBlocks.toNat_lt
  · rw [markedFree_writtenPages h, Ascending.sort_of_ascending index.pool.free.ascending]
  · exact (capacity_headerOf createdAt).symm
  · rw [numBlocks_headerOf, UInt32.ofNat_toNat, Pool.ofParts, IdSet.ofList_ids]
  · rfl
  · rw [blocks_writtenPages h]

/--
A storable index is read back from its file, whatever packs its head table in a
way that unpacks.
-/
theorem read_writeWith_of_storable {index : Index} (h : index.Storable)
    {pack : List UInt8 -> List UInt8}
    (hpack : Lz4.decompress? (pack (HeadSection.encode index.heads)) =
      some (HeadSection.encode index.heads)) (createdAt : UInt64) :
    read (writeWith pack index createdAt) = .ok index := by
  rw [(parts_writeWith h.encodable hpack createdAt).read_eq, h.verified]
  rfl

theorem read_write_of_storable {index : Index} (h : index.Storable)
    (hlength : (HeadSection.encode index.heads).length < 2 ^ 32) (createdAt : UInt64) :
    read (write index createdAt) = .ok index :=
  read_writeWith_of_storable h (Lz4.decompress?_compress hlength) createdAt

end File

end PostingIndex
