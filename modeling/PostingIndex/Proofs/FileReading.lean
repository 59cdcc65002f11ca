import PostingIndex.File.Image
import PostingIndex.Proofs.HeaderCodec
import PostingIndex.Proofs.Layout
import PostingIndex.Proofs.WalkEnds

/-!
# What reading a file accepts

## Contents

The bounds of tables and sections, when the head table and the list of free blocks are
read, the conditions that a file meets if an index is read from it, and the errors of
reading, with and without bounds on memory.
-/

namespace PostingIndex

namespace File

theorem tableEnd_eq_ok {start count entrySize field stop : Nat} :
    tableEnd start count entrySize field = .ok stop ↔
      start + count * entrySize < UInt64.size ∧ start + count * entrySize = stop := by
  rw [tableEnd]
  by_cases h : UInt64.size ≤ start + count * entrySize
  · rw [if_pos h]
    constructor
    · intro herror
      cases herror
    · intro hend
      exact absurd hend.left (Nat.not_lt.mpr h)
  · rw [if_neg h, Except.ok.injEq]
    constructor
    · intro heq
      exact ⟨Nat.not_le.mp h, heq⟩
    · intro hend
      exact hend.right

theorem checkSection_eq_ok {file : FileBytes} {start stop : Nat} {value : Unit} :
    checkSection file start stop = .ok value ↔ start ≤ stop ∧ stop ≤ file.size := by
  unfold checkSection
  by_cases horder : stop < start
  · simp [horder, Nat.not_le.mpr horder]
  · by_cases hsize : file.size < stop
    · simp [horder, hsize, Nat.not_le.mpr hsize]
    · simp [horder, hsize, Nat.not_lt.mp horder, Nat.not_lt.mp hsize]

theorem readSection_eq_ok {file : FileBytes} {start stop : Nat} {bytes : List UInt8} :
    readSection file start stop = .ok bytes ↔
      (start ≤ stop ∧ stop ≤ file.size) ∧ slice file start stop = bytes := by
  simp only [readSection, Outcome.bind_eq_ok, Outcome.pure_eq_ok, checkSection_eq_ok,
    exists_const]

theorem checkSection_of_size_lt {file : FileBytes} {start stop : Nat} (horder : start ≤ stop)
    (hpast : file.size < stop) : checkSection file start stop = .error .truncated := by
  rw [checkSection, if_neg (Nat.not_lt.mpr horder), if_pos hpast]

theorem readSection_of_size_lt {file : FileBytes} {start stop : Nat} (horder : start ≤ stop)
    (hpast : file.size < stop) : readSection file start stop = .error .truncated := by
  rw [readSection, checkSection_of_size_lt horder hpast]
  rfl

theorem readHeadBytes_eq_ok {file : FileBytes} {header : FileHeader} {bytes : List UInt8} :
    readHeadBytes file header = .ok bytes ↔
      ∃ packed,
        readSection file header.headTableOffset.toNat header.blockTableOffset.toNat =
          .ok packed ∧
        Lz4.decompress? packed = some bytes := by
  rw [readHeadBytes, Outcome.bind_eq_ok]
  apply exists_congr
  intro packed
  apply and_congr_right
  intro _
  cases Lz4.decompress? packed with
  | none =>
      simp
  | some found =>
      simp

theorem readHeadTable_eq_ok {file : FileBytes} {header : FileHeader} {heads : HeadTable} :
    readHeadTable file header = .ok heads ↔
      ∃ packed bytes,
        readSection file header.headTableOffset.toNat header.blockTableOffset.toNat =
          .ok packed ∧
        Lz4.decompress? packed = some bytes ∧
          HeadSection.parse header.typeCount.toNat bytes = .ok heads := by
  rw [readHeadTable, Outcome.bind_eq_ok]
  constructor
  · rintro ⟨bytes, hread, hheads⟩
    rcases readHeadBytes_eq_ok.mp hread with ⟨packed, hpacked, hbytes⟩
    exact ⟨packed, bytes, hpacked, hbytes, hheads⟩
  · rintro ⟨packed, bytes, hpacked, hbytes, hheads⟩
    exact ⟨bytes, readHeadBytes_eq_ok.mpr ⟨packed, hpacked, hbytes⟩, hheads⟩

theorem readFreeList_eq_ok {file : FileBytes} {header : FileHeader} {ids : List BlockId} :
    readFreeList file header = .ok ids ↔
      header.freeTableOffset.toNat + header.freeCount.toNat * 4 < UInt64.size ∧
      ∃ bytes,
        readSection file header.freeTableOffset.toNat
          (header.freeTableOffset.toNat + header.freeCount.toNat * 4) = .ok bytes ∧
        readIds [] header.freeCount.toNat bytes = some ids := by
  simp only [readFreeList, Outcome.bind_eq_ok, tableEnd_eq_ok]
  constructor
  · intro h
    rcases h with ⟨stop, ⟨hlt, hstop⟩, bytes, hbytes, h⟩
    cases hids : readIds [] header.freeCount.toNat bytes with
    | none =>
        simp [hids] at h
    | some found =>
        simp only [hids, Except.ok.injEq] at h
        exact ⟨hlt, bytes, hstop ▸ hbytes, h ▸ hids⟩
  · intro h
    rcases h with ⟨hlt, bytes, hbytes, hids⟩
    exact ⟨_, ⟨hlt, rfl⟩, bytes, hbytes, by rw [hids]⟩

theorem length_of_readIds {read ids : List BlockId} {count : Nat} {input : List UInt8}
    (h : readIds read count input = some ids) : ids.length = read.length + count := by
  induction count generalizing read input with
  | zero =>
      rw [readIds, Option.some.injEq] at h
      rw [← h, List.length_reverse, Nat.add_zero]
  | succ count ih =>
      rw [readIds] at h
      split at h
      · cases h
      · rw [ih h, List.length_cons]
        omega

theorem length_of_readFreeList {file : FileBytes} {header : FileHeader} {ids : List BlockId}
    (h : readFreeList file header = .ok ids) : ids.length = header.freeCount.toNat := by
  rcases readFreeList_eq_ok.mp h with ⟨_, bytes, _, hids⟩
  rw [length_of_readIds hids, List.length_nil, Nat.zero_add]

theorem exists_readIds {read : List BlockId} {count : Nat} {input : List UInt8}
    (h : count * 4 ≤ input.length) : ∃ ids, readIds read count input = some ids := by
  induction count generalizing read input with
  | zero =>
      exact ⟨_, rfl⟩
  | succ count ih =>
      rw [Nat.succ_mul] at h
      have hrest : count * 4 ≤ (input.drop 4).length := by
        rw [List.length_drop]
        exact Nat.le_sub_of_add_le h
      rcases LittleEndian.exists_read? (Nat.le_trans (Nat.le_add_left _ _) h) with ⟨_, hread⟩
      simp only [readIds, hread]
      exact ih hrest

theorem length_slice {file : FileBytes} {start stop : Nat} (h : stop ≤ file.size) :
    (slice file start stop).length = stop - start := by
  rw [slice, Array.length_toList, Array.size_extract, Nat.min_eq_left h]

theorem exists_readFreeList_iff {file : FileBytes} {header : FileHeader} :
    (∃ ids, readFreeList file header = .ok ids) ↔
      header.freeTableOffset.toNat + header.freeCount.toNat * 4 < UInt64.size ∧
        header.freeTableOffset.toNat + header.freeCount.toNat * 4 ≤ file.size := by
  constructor
  · intro h
    rcases h with ⟨ids, hids⟩
    rcases readFreeList_eq_ok.mp hids with ⟨hreach, bytes, hbytes, _⟩
    exact ⟨hreach, (readSection_eq_ok.mp hbytes).left.right⟩
  · intro h
    have hlength : header.freeCount.toNat * 4 ≤
        (slice file header.freeTableOffset.toNat
          (header.freeTableOffset.toNat + header.freeCount.toNat * 4)).length := by
      rw [length_slice h.right, Nat.add_sub_cancel_left]
    rcases exists_readIds hlength with ⟨ids, hids⟩
    exact ⟨ids, readFreeList_eq_ok.mpr
      ⟨h.left, _, readSection_eq_ok.mpr ⟨⟨Nat.le_add_right _ _, h.right⟩, rfl⟩, hids⟩⟩

theorem readFreeList_of_size_lt {file : FileBytes} {header : FileHeader}
    (hend : header.freeTableOffset.toNat + header.freeCount.toNat * 4 < UInt64.size)
    (hpast : file.size < header.freeTableOffset.toNat + header.freeCount.toNat * 4) :
    readFreeList file header = .error .truncated := by
  have hstop : tableEnd header.freeTableOffset.toNat header.freeCount.toNat 4
      freeCountField = .ok (header.freeTableOffset.toNat + header.freeCount.toNat * 4) :=
    tableEnd_eq_ok.mpr ⟨hend, rfl⟩
  simp only [readFreeList, hstop, bind, Except.bind,
    readSection_of_size_lt (Nat.le_add_right _ _) hpast]

theorem tableEnd_pages {header : FileHeader}
    (hend : header.blockTableOffset.toNat +
      header.numBlocks.toNat * Page.size header.capacity.toNat =
        header.freeTableOffset.toNat) :
    tableEnd header.blockTableOffset.toNat header.numBlocks.toNat
      (Page.size header.capacity.toNat) numBlocksField =
        .ok header.freeTableOffset.toNat := by
  rw [tableEnd_eq_ok, hend]
  exact ⟨header.freeTableOffset.toNat_lt, rfl⟩

/-- The parts of a file that fit together, and the index that they make up. -/
structure Parts (file : FileBytes) (header : FileHeader) (heads : HeadTable)
    (pages : List Page) (free : List BlockId) (index : Index) : Prop where
  readHeader : readHeader file = .ok header
  readHeads : readHeadTable file header = .ok heads
  readPages : readPages file header header.numBlocks.toNat = .ok pages
  readFree : readFreeList file header = .ok free
  pagesEnd : header.blockTableOffset.toNat +
    header.numBlocks.toNat * Page.size header.capacity.toNat =
      header.freeTableOffset.toNat
  inFile : header.freeTableOffset.toNat ≤ file.size
  small : header.numBlocks.toNat < UInt32.size
  marked : Ascending.sort free = markedFree pages
  capacity : index.capacity = header.capacity.toNat
  pool : index.pool = Pool.ofParts (UInt32.ofNat header.numBlocks.toNat) free
  table : index.heads = heads
  arena : index.arena = { blocks := (pages.map Page.block).toArray }

structure Reads (file : FileBytes) (header : FileHeader) (heads : HeadTable)
    (pages : List Page) (free : List BlockId) (index : Index) : Prop
    extends Parts file header heads pages free index where
  verified : index.verify = .ok ()

theorem read_eq_of_pages {file : FileBytes} {header : FileHeader} {heads : HeadTable}
    {pages : List Page} (hheader : File.readHeader file = .ok header)
    (hheads : readHeadTable file header = .ok heads)
    (hpages : File.readPages file header header.numBlocks.toNat = .ok pages)
    (hend : header.blockTableOffset.toNat +
      header.numBlocks.toNat * Page.size header.capacity.toNat =
        header.freeTableOffset.toNat)
    (hin : header.freeTableOffset.toNat ≤ file.size)
    (hsmall : header.numBlocks.toNat < UInt32.size) :
    read file = (do
      let free ← readFreeList file header
      if Ascending.sort free ≠ markedFree pages then
        throw (.corruptData header.freeTableOffset.toNat)
      let index ← Index.ofParts header.capacity.toNat
        (Pool.ofParts (UInt32.ofNat header.numBlocks.toNat) free) heads
        { blocks := (pages.map Page.block).toArray }
      index.verify
      return index) := by
  have hstop := tableEnd_pages hend
  have hsection : checkSection file header.blockTableOffset.toNat
      header.freeTableOffset.toNat = .ok () := by
    rw [checkSection_eq_ok, ← hend]
    exact ⟨Nat.le_add_right _ _, hend ▸ hin⟩
  unfold read readTables
  simp only [hheader, hheads, hsection, hstop, hpages, bind, Except.bind,
    Nat.not_le.mpr hsmall, ne_eq, not_true_eq_false, or_self, if_false]

/-- Where the parts fit together, reading comes to what the audit of the index says. -/
theorem Parts.read_eq {file : FileBytes} {header : FileHeader} {heads : HeadTable}
    {pages : List Page} {free : List BlockId} {index : Index}
    (h : Parts file header heads pages free index) :
    read file = index.verify.map fun _ => index := by
  have hparts := Index.ofParts_eq_ok.mpr ⟨h.capacity, h.pool, h.table, h.arena⟩
  rw [read_eq_of_pages h.readHeader h.readHeads h.readPages h.pagesEnd h.inFile h.small]
  simp only [h.readFree, h.marked, hparts, bind, Except.bind, ne_eq, not_true_eq_false,
    if_false]
  cases index.verify with
  | error error =>
      rfl
  | ok value =>
      rfl

theorem read_eq_ok {file : FileBytes} {index : Index} :
    read file = .ok index ↔
      ∃ header heads pages free, Reads file header heads pages free index := by
  constructor
  · intro h
    simp only [read, readTables, Outcome.bind_eq_ok, Outcome.ite_throw_eq_ok, Outcome.pure_eq_ok,
      checkSection_eq_ok, tableEnd_eq_ok, Index.ofParts_eq_ok, not_or, not_not] at h
    rcases h with ⟨header, hheader, heads, hheads, _, ⟨_, hin⟩, pagesEnd, ⟨_, hend⟩,
      ⟨hcount, hpages⟩, pages, hreadPages, free, hfree, hmarked, result,
      ⟨hcapacity, hpool, htable, harena⟩, _, hverify, rfl⟩
    exact ⟨header, heads, pages, free, ⟨hheader, hheads, hreadPages, hfree,
      hend.trans hpages, hin, Nat.not_le.mp hcount, hmarked, hcapacity, hpool, htable,
      harena⟩, hverify⟩
  · intro h
    rcases h with ⟨header, heads, pages, free, h⟩
    rw [h.read_eq, h.verified]
    rfl

/-!
## The pages that are read
-/

theorem parse_of_readPages {file : FileBytes} {header : FileHeader} {count : Nat}
    {pages : List Page} (h : readPages file header count = .ok pages) :
    pages.length = count ∧
      ∀ number page, pages[number]? = some page ->
        Page.parse (UInt32.ofNat number) header.capacity.toNat
          (pageBytes file header (UInt32.ofNat number)) = .ok page := by
  rw [readPages, Outcome.mapM_eq_ok] at h
  have hlength := h.length_eq
  rw [List.length_map, List.length_range] at hlength
  refine ⟨hlength.symm, ?_⟩
  intro number page hpage
  rcases List.getElem?_eq_some_iff.mp hpage with ⟨hlt, heq⟩
  have hparse := h.get (by simpa [hlength] using hlt) hlt
  simpa [heq] using hparse

end File

/-!
## Errors
-/

/-- The outcome is a value or a returned error, so no check of the machine cut it short. -/
def Completes {α : Type} (outcome : Except IndexError α) : Prop :=
  ∀ error, outcome = .error error -> error.Returned

section Completes

variable {α β : Type}

theorem Completes.bind {first : Except IndexError α} {next : α -> Except IndexError β}
    (hfirst : Completes first) (hnext : ∀ value, Completes (next value)) :
    Completes (first >>= next) := by
  intro error h
  rcases Outcome.bind_eq_error.mp h with hleft | ⟨value, _, hright⟩
  · exact hfirst error hleft
  · exact hnext value error hright

end Completes

namespace Index

end Index

namespace File

end File

namespace HeadSection

variable {grants : Nat -> Bool} {typeCount : Nat}

end HeadSection

namespace File

end File

end PostingIndex
