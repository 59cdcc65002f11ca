import PostingIndex.File.View
import PostingIndex.Proofs.Storing

/-!
# Files that were cut off

A file that lost some bytes at its end is found to be truncated, wherever the cut
is.  All sections before the cut are read as they were written, so neither a
checksum nor a decoder fails on them, and the first section that reaches beyond the
cut is missed by its bounds.  A cut between two sections is no exception, since the
header says how far the last one reaches.

## Contents

Bytes that a cut leaves in place, the sections of a cut file, and what reading and
opening it come to.
-/

namespace PostingIndex

namespace Index

theorem Initial.pageable_steps {start : Index} (h : start.Initial) (row : List Step) :
    (start.steps row).Pageable :=
  (lasting_storable.steps h.storable row).encodable.pageable

end Index

namespace File

/-!
## Cut files
-/

theorem LiesAt.take {file : FileBytes} {start length : Nat} {bytes : List UInt8}
    (h : LiesAt file start bytes) (hle : start + bytes.length ≤ length) :
    LiesAt (file.take length) start bytes := by
  rcases h with ⟨front, rest, hfile, hstart⟩
  refine ⟨front, rest.take (length - (start + bytes.length)), ?_, hstart⟩
  rw [Array.take_eq_extract, Array.toList_extract, List.extract_eq_take_drop, Nat.sub_zero,
    List.drop_zero, hfile, List.take_append, List.take_append, hstart, Nat.sub_sub,
    List.take_of_length_le (by omega), List.take_of_length_le (by omega)]

/-- The file of an index is cut off after so many bytes. -/
structure Cut (whole : FileBytes) (length : Nat) (header : FileHeader) (packed : List UInt8)
    (index : Index) : Prop extends WrittenHeader header packed index where
  pageable : index.Pageable
  sections : HasSections whole header packed index
  size : (whole.take length).size = length
  short : length < fileEnd header

namespace Cut

variable {whole : FileBytes} {length : Nat} {header : FileHeader} {packed : List UInt8}
  {index : Index}

theorem readHeader (h : Cut whole length header packed index)
    (hle : FileHeader.size ≤ length) : readHeader (whole.take length) = .ok header := by
  rcases h.written with ⟨_, rfl⟩
  apply readHeader_of_liesAt rfl rfl
  apply h.sections.header.take
  rw [FileHeader.length_encode, Nat.zero_add]
  exact hle

theorem readHeadTable_of_lt (h : Cut whole length header packed index)
    (hlt : length < header.blockTableOffset.toNat) :
    readHeadTable (whole.take length) header = .error .truncated := by
  have horder : header.headTableOffset.toNat ≤ header.blockTableOffset.toNat := by
    rw [h.blockTableOffset_eq]
    rcases h.written with ⟨_, rfl⟩
    exact Nat.le_add_right _ _
  have hsection : readSection (whole.take length) header.headTableOffset.toNat
      header.blockTableOffset.toNat = .error .truncated :=
    readSection_of_size_lt horder (h.size.trans_lt hlt)
  rw [File.readHeadTable, readHeadBytes, hsection]
  rfl

theorem readHeadTable (h : Cut whole length header packed index)
    (hle : header.blockTableOffset.toNat ≤ length) :
    readHeadTable (whole.take length) header =
      .ok { rows := index.heads.rows.map HeadRow.reread } := by
  rw [h.blockTableOffset_eq] at hle
  rcases h.written with ⟨_, rfl⟩
  exact readHeadTable_of_liesAt _ (h.sections.heads.take hle) h.unpacked

theorem readPages (h : Cut whole length header packed index)
    (hle : header.freeTableOffset.toNat ≤ length) :
    readPages (whole.take length) header header.numBlocks.toNat =
      .ok ((writtenPages index).map Page.reread) := by
  rw [h.freeTableOffset_eq, ← length_pagesBytes h.pageable] at hle
  rw [h.numBlocks_eq]
  rcases h.written with ⟨_, rfl⟩
  exact readPages_of_liesAt _ h.pageable h.packed_length_lt (h.sections.pages.take hle)

theorem capacity_ne_zero (h : Cut whole length header packed index) :
    ¬ header.capacity = 0 := by
  rcases h.written with ⟨createdAt, rfl⟩
  intro hzero
  have hpos := index.capacity_pos
  rw [← capacity_headerOf createdAt, hzero] at hpos
  exact Nat.lt_irrefl _ hpos

/-- Reading fails at the bounds of the first section that the cut has shortened. -/
theorem read_eq (h : Cut whole length header packed index) :
    read (whole.take length) = .error .truncated := by
  rcases Nat.lt_or_ge length FileHeader.size with hheader | hheader
  · rw [read, File.readHeader, if_pos (h.size.trans_lt hheader)]
    rfl
  · have hread := h.readHeader hheader
    rcases Nat.lt_or_ge length header.blockTableOffset.toNat with hheads | hheads
    · unfold read
      simp only [hread, h.readHeadTable_of_lt hheads, bind, Except.bind]
    · have htable := h.readHeadTable hheads
      rcases Nat.lt_or_ge length header.freeTableOffset.toNat with hpages | hpages
      · have hsection := checkSection_of_size_lt (Nat.le.intro h.pagesEnd)
          (h.size.trans_lt hpages)
        unfold read readTables
        simp only [hread, htable, hsection, bind, Except.bind]
      · have hfree := readFreeList_of_size_lt h.fileEnd_lt (h.size.trans_lt h.short)
        rw [read_eq_of_pages hread htable (h.readPages hpages) h.pagesEnd
          (hpages.trans_eq h.size.symm) h.numBlocks_lt, hfree]
        rfl

theorem ofFile_eq (h : Cut whole length header packed index) :
    FileView.ofFile (whole.take length) = .error .truncated := by
  rcases Nat.lt_or_ge length FileHeader.size with hheader | hheader
  · rw [FileView.ofFile, File.readHeader, if_pos (h.size.trans_lt hheader)]
    rfl
  · have hread := h.readHeader hheader
    have hcapacity := h.capacity_ne_zero
    rcases Nat.lt_or_ge length header.blockTableOffset.toNat with hheads | hheads
    · unfold FileView.ofFile
      simp only [hread, hcapacity, h.readHeadTable_of_lt hheads, bind, Except.bind, if_false]
    · have hend : tableEnd header.freeTableOffset.toNat header.freeCount.toNat 4
          freeCountField = .ok (fileEnd header) :=
        tableEnd_eq_ok.mpr ⟨h.fileEnd_lt, rfl⟩
      have hpast : (whole.take length).size <
          max header.freeTableOffset.toNat (fileEnd header) :=
        Nat.lt_of_lt_of_le (h.size.trans_lt h.short) (Nat.le_max_right _ _)
      unfold FileView.ofFile
      simp only [hread, hcapacity, h.readHeadTable hheads, Nat.not_le.mpr h.numBlocks_lt,
        tableEnd_pages h.pagesEnd, hend, hpast, bind, Except.bind, if_false, if_true]
      rfl

end Cut

theorem size_writeWith {index : Index} (h : index.Pageable)
    {pack : List UInt8 -> List UInt8} (hpack : Unpacks pack index.heads) (createdAt : UInt64) :
    (writeWith pack index createdAt).size =
      fileEnd (headerOf index createdAt (pack (HeadSection.encode index.heads)).length) := by
  have hwritten : WrittenHeader _ (pack (HeadSection.encode index.heads)) index :=
    ⟨hpack, createdAt, rfl⟩
  rw [hwritten.fileEnd_eq, writeWith_eq, List.size_toArray, List.length_append,
    List.length_append, List.length_append, FileHeader.length_encode, length_pagesBytes h,
    length_freeBytes]
  simp only [Nat.add_assoc]

theorem cut_writeWith {index : Index} (h : index.Pageable)
    {pack : List UInt8 -> List UInt8} (hpack : Unpacks pack index.heads)
    (createdAt : UInt64) {length : Nat}
    (hlength : length < (writeWith pack index createdAt).size) :
    Cut (writeWith pack index createdAt) length
      (headerOf index createdAt (pack (HeadSection.encode index.heads)).length)
      (pack (HeadSection.encode index.heads)) index where
  pageable := h
  unpacked := hpack
  written := ⟨createdAt, rfl⟩
  sections := by
    rw [writeWith_eq]
    exact hasSections_toArray h _ _
  size := by
    rw [Array.take_eq_extract, Array.size_extract, Nat.sub_zero,
      Nat.min_eq_left (Nat.le_of_lt hlength)]
  short := hlength.trans_eq (size_writeWith h hpack createdAt)

end File

namespace Index

/--
Wherever the file of an index is cut off after a run, reading it and opening it
report a truncated file, and nothing else.
-/
theorem truncated_of_cut {start : Index} (hstart : start.Initial) (row : List Step)
    {pack : List UInt8 -> List UInt8} (hpack : File.Unpacks pack (start.steps row).heads)
    (createdAt : UInt64) {length : Nat}
    (hlength : length < (File.writeWith pack (start.steps row) createdAt).size) :
    let cut := (File.writeWith pack (start.steps row) createdAt).take length
    File.read cut = .error .truncated ∧ FileView.ofFile cut = .error .truncated := by
  have h := File.cut_writeWith (hstart.pageable_steps row) hpack createdAt hlength
  exact ⟨h.read_eq, h.ofFile_eq⟩

/--
A player gives up one of two blocks.  The file of 130 bytes is cut off where its head
table ends, and where its pages end.
-/
theorem truncated_of_cut_player :
    let entity : Entity := { type := .player, id := 0 }
    let row : List Step := [
      .update { entity, changes := Changes.ofList [(4, 1), (7, 2)] },
      .update { entity, changes := Changes.ofList [(4, 0)] }]
    ∃ start, new { types := [.player], capacity := 1 } = .ok start ∧
      File.Unpacks Lz4.compress (start.steps row).heads ∧
      let file := File.write (start.steps row) 0
      file.size = 130 ∧
        (File.read (file.take 78) = .error .truncated ∧
          FileView.ofFile (file.take 78) = .error .truncated) ∧
        (File.read (file.take 126) = .error .truncated ∧
          FileView.ofFile (file.take 126) = .error .truncated) := by
  intro entity row
  let start : Index :=
    { capacity := 1
      pool := Pool.empty
      heads := HeadTable.ofTypes [.player]
      arena := Arena.empty
      usable := by decide }
  have hnew : new { types := [.player], capacity := 1 } = .ok start := rfl
  have hpack : File.Unpacks Lz4.compress (start.steps row).heads := by decide +kernel
  have hsize : (File.writeWith Lz4.compress (start.steps row) 0).size = 130 := by
    decide +kernel
  have hcut {length : Nat} (hlength : length < 130) :=
    truncated_of_cut (Or.inl ⟨_, hnew⟩) row hpack 0 (hlength.trans_eq hsize.symm)
  exact ⟨start, hnew, hpack, hsize, hcut (by decide), hcut (by decide)⟩

end Index

end PostingIndex
