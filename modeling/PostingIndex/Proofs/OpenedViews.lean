import PostingIndex.File.View
import PostingIndex.Proofs.FileReading
import PostingIndex.Proofs.PageCodec
import PostingIndex.Proofs.WalkEnds

/-!
# What opening a file settles

A view computes offsets from the fields of a header that nothing else bears out.  Opening
the file checks once how far the pages and the list of free blocks reach, so that no later
access leaves the file or needs more than 64 bits.

## Contents

The conditions for opening a file, the errors that blame a block, and the accesses of an
opened view.
-/

namespace PostingIndex

/-- The error names a block, for its place on a chain or for its checksum. -/
inductive IndexError.Blames (id : BlockId) : IndexError -> Prop where
  | corruptChain (fault : ChainFault) : Blames id (.corruptChain id fault)
  | checksumMismatch : Blames id (.checksumMismatch id)

theorem Page.blames_of_parse {id : BlockId} {capacity : Nat} {input : List UInt8}
    {error : IndexError} (hlength : input.length = size capacity)
    (h : parse id capacity input = .error error) : error.Blames id := by
  rw [size, headerSize] at hlength
  rcases exists_readFields? (Nat.le_trans (by omega) (Nat.le_of_eq hlength.symm)) with
    ⟨fields, hfields⟩
  simp only [parse, hfields] at h
  split at h
  · cases h
    exact .corruptChain _
  · next hfits =>
      have hroom : fields.length * postingSize ≤ capacity * postingSize :=
        Nat.mul_le_mul_right _ (Nat.not_lt.mp hfits)
      have hrest : 4 + fields.length * postingSize ≤ (input.drop 12).length := by
        rw [List.length_drop]
        omega
      rcases exists_readBody? hrest with ⟨content, hbody⟩
      simp only [hbody] at h
      split at h
      · cases h
        exact .checksumMismatch
      · rcases exists_readPostings (Nat.le_of_eq (exists_of_readBody? hbody).left.symm) with
          ⟨postings, hpostings⟩
        rw [hpostings] at h
        cases h

namespace FileView

/-!
## Opening
-/

/-- The conditions that a file meets if it can be opened. -/
structure Opened (view : FileView) : Prop where
  readHeader : File.readHeader view.file = .ok view.header
  capacity_ne : view.header.capacity ≠ 0
  readHeads : File.readHeadTable view.file view.header = .ok view.heads
  small : view.header.numBlocks.toNat < UInt32.size
  pagesReach : view.header.blockTableOffset.toNat +
    view.header.numBlocks.toNat * Page.size view.header.capacity.toNat < UInt64.size
  pagesInFile : view.header.blockTableOffset.toNat +
    view.header.numBlocks.toNat * Page.size view.header.capacity.toNat ≤ view.file.size
  freeReach : view.header.freeTableOffset.toNat +
    view.header.freeCount.toNat * 4 < UInt64.size
  freeInFile : view.header.freeTableOffset.toNat +
    view.header.freeCount.toNat * 4 ≤ view.file.size

variable {file : FileBytes} {view : FileView} {id : BlockId}

theorem ofFile_eq_ok : ofFile file = .ok view ↔ view.file = file ∧ view.Opened := by
  simp only [ofFile, Outcome.bind_eq_ok, Outcome.ite_throw_eq_ok, Outcome.pure_eq_ok,
    File.tableEnd_eq_ok, Nat.not_lt, Nat.max_le]
  constructor
  · intro h
    rcases h with ⟨header, hheader, hcapacity, heads, hheads, hsmall, _, ⟨hpages, rfl⟩, _,
      ⟨hfree, rfl⟩, ⟨hpagesIn, hfreeIn⟩, rfl⟩
    exact ⟨rfl, hheader, hcapacity, hheads, Nat.not_le.mp hsmall, hpages, hpagesIn, hfree,
      hfreeIn⟩
  · rintro ⟨rfl, h⟩
    exact ⟨view.header, h.readHeader, h.capacity_ne, view.heads, h.readHeads,
      Nat.not_le.mpr h.small, _, ⟨h.pagesReach, rfl⟩, _, ⟨h.freeReach, rfl⟩,
      ⟨h.pagesInFile, h.freeInFile⟩, rfl⟩

namespace Opened

theorem toNat_numBlocks (h : view.Opened) :
    view.numBlocks.toNat = view.header.numBlocks.toNat := by
  rw [numBlocks, UInt64.toNat_toUInt32, Nat.mod_eq_of_lt h.small]

/-!
## Accesses
-/

theorem pageStart_add_size_le (h : view.Opened) (hid : id < view.numBlocks) :
    File.pageStart view.header id + Page.size view.header.capacity.toNat ≤
      view.header.blockTableOffset.toNat +
        view.header.numBlocks.toNat * Page.size view.header.capacity.toNat := by
  have hlt : id.toNat + 1 ≤ view.header.numBlocks.toNat :=
    h.toNat_numBlocks ▸ UInt32.lt_iff_toNat_lt.mp hid
  have hmul := Nat.mul_le_mul_right (Page.size view.header.capacity.toNat) hlt
  rw [Nat.succ_mul] at hmul
  rw [File.pageStart, Nat.add_assoc]
  exact Nat.add_le_add_left hmul _

theorem loadBlock_eq (h : view.Opened) (hid : id < view.numBlocks) :
    view.loadBlock id =
      (Page.parse id view.header.capacity.toNat
        (File.pageBytes view.file view.header id)).map Page.block := by
  have hin := Nat.le_trans (h.pageStart_add_size_le hid) h.pagesInFile
  have hraw : File.readSection view.file (File.pageStart view.header id)
      (File.pageStart view.header id + Page.size view.header.capacity.toNat) =
        .ok (File.pageBytes view.file view.header id) :=
    File.readSection_eq_ok.mpr ⟨⟨Nat.le_add_right _ _, hin⟩, rfl⟩
  simp only [loadBlock, UInt32.not_le.mpr hid, if_false, hraw, bind, Except.bind]
  cases Page.parse id view.header.capacity.toNat (File.pageBytes view.file view.header id) with
  | error error =>
      rfl
  | ok page =>
      rfl

theorem blames_of_loadBlock (h : view.Opened) {error : IndexError}
    (hload : view.loadBlock id = .error error) : error.Blames id := by
  by_cases hid : id < view.numBlocks
  · rw [h.loadBlock_eq hid, Outcome.map_eq_error] at hload
    apply Page.blames_of_parse _ hload
    rw [File.pageBytes, File.length_slice
      (Nat.le_trans (h.pageStart_add_size_le hid) h.pagesInFile), Nat.add_sub_cancel_left]
  · simp only [loadBlock, UInt32.not_lt.mp hid, if_true] at hload
    cases hload
    exact .corruptChain _

theorem exists_freeIds (h : view.Opened) : ∃ ids, view.freeIds = .ok ids := by
  rcases File.exists_readFreeList_iff.mpr ⟨h.freeReach, h.freeInFile⟩ with ⟨ids, hids⟩
  exact ⟨Ascending.sort ids, by rw [freeIds, hids]; rfl⟩

theorem reason_of_postings (h : view.Opened) {entity : Entity} {error : IndexError}
    (hpostings : view.postings entity = .error error) :
    error = .unknownType entity.type ∨ ∃ id, error.Blames id := by
  rcases Outcome.bind_eq_error.mp hpostings with hhead | ⟨head, _, hchain⟩
  · left
    rw [headOf, HeadTable.headOf, Outcome.map_eq_error, HeadTable.heads] at hhead
    split at hhead
    · cases hhead
    · cases hhead
      rfl
  · right
    rw [BlockSource.postings, Outcome.map_eq_error] at hchain
    exact BlockSource.reason_of_chain (fun error => ∃ id, error.Blames id)
      (fun id fault => ⟨id, .corruptChain fault⟩)
      (fun id _ hload => ⟨id, h.blames_of_loadBlock hload⟩) hchain

end Opened

/--
In a file that was opened, the page of every block ever handed out ends within 64 bits and
within the file.  Loading a block fails only with blame for this block, the list of free
blocks is always read, and a posting list is missing only if its catalogue is not
configured or a block is to blame.
-/
theorem accesses_stay_in_file (h : ofFile file = .ok view) :
    (∀ id, id < view.numBlocks ->
      File.pageStart view.header id + Page.size view.header.capacity.toNat < UInt64.size ∧
        File.pageStart view.header id + Page.size view.header.capacity.toNat ≤ file.size) ∧
    (∀ id error, view.loadBlock id = .error error -> error.Blames id) ∧
    (∃ ids, view.freeIds = .ok ids) ∧
    (∀ entity error, view.postings entity = .error error ->
      error = .unknownType entity.type ∨ ∃ id, error.Blames id) ∧
    ∀ expand entity error, view.games expand entity = .error error ->
      error = .unknownType entity.type ∨ ∃ id, error.Blames id := by
  rcases ofFile_eq_ok.mp h with ⟨rfl, hopened⟩
  refine ⟨?_, ?_, hopened.exists_freeIds, ?_, ?_⟩
  · intro id hid
    have hpages := hopened.pageStart_add_size_le hid
    exact ⟨Nat.lt_of_le_of_lt hpages hopened.pagesReach,
      Nat.le_trans hpages hopened.pagesInFile⟩
  · intro id error hload
    exact hopened.blames_of_loadBlock hload
  · intro entity error hpostings
    exact hopened.reason_of_postings hpostings
  · intro expand entity error hgames
    exact hopened.reason_of_postings (Outcome.map_eq_error.mp hgames)

/-- The only page of a file has another checksum than its posting. -/
theorem accesses_stay_in_file_player :
    let index : Index :=
      { capacity := 1
        pool := Pool.ofParts 1 []
        heads := { rows := [{ type := .player, heads := #[some 0] }] }
        arena := { blocks := #[{ postings := [{ game := 4, count := 1 }] }] }
        usable := by decide }
    let file := (File.write index 0).modify 86 (· + 1)
    let player : Entity := { type := .player, id := 0 }
    ∃ view, ofFile file = .ok view ∧ 0 < view.numBlocks ∧
      File.pageStart view.header 0 + Page.size view.header.capacity.toNat ≤ file.size ∧
        (∃ ids, view.freeIds = .ok ids) ∧ view.loadBlock 0 = .error (.checksumMismatch 0) ∧
          view.postings player = .error (.checksumMismatch 0) ∧
            IndexError.Blames 0 (.checksumMismatch 0) := by
  intro index file player
  let view : FileView :=
    { file
      header := File.headerOf index 0
        (Lz4.compress (HeadSection.encode index.heads)).length
      heads := index.heads }
  have hfile : ofFile file = .ok view := by decide +kernel
  have hload : view.loadBlock 0 = .error (.checksumMismatch 0) := by decide +kernel
  have hpostings : view.postings player = .error (.checksumMismatch 0) := by decide +kernel
  have hsome : 0 < view.numBlocks := by decide +kernel
  rcases accesses_stay_in_file hfile with ⟨hpages, hblame, hfree, _, _⟩
  exact ⟨view, hfile, hsome, (hpages 0 hsome).right, hfree, hload, hpostings,
    hblame 0 _ hload⟩

end FileView

end PostingIndex
