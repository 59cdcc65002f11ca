import PostingIndex.Proofs.OpenedViews
import PostingIndex.Proofs.Storing

/-!
# Views and indexes of one file

A file from which an index is read can also be opened as a view.  The view
checks less and parses pages only where chains run, but it answers every
question as the index does.

## Contents

Sources that load the same blocks, opening the file, the pages and the list of
free blocks as the view reads them, and the answers of both.
-/

namespace PostingIndex

namespace BlockSource

theorem follow_congr {source other : BlockSource} (hcount : source.count = other.count)
    (hload : ∀ id, id.toNat < source.count -> source.load id = other.load id)
    (capacity fuel : Nat) (visited : List StoredBlock) (previous : Option GameId)
    (link : Option BlockId) :
    source.follow capacity fuel visited previous link =
      other.follow capacity fuel visited previous link := by
  induction fuel generalizing visited previous link with
  | zero =>
      cases link with
      | none =>
          rfl
      | some id =>
          simp only [follow, hcount]
  | succ fuel ih =>
      cases link with
      | none =>
          rfl
      | some id =>
          by_cases hbeyond : source.count ≤ id.toNat
          · rw [hcount] at hbeyond
            simp only [follow, hbeyond, if_true, hcount]
          · have hother : ¬ other.count ≤ id.toNat := hcount ▸ hbeyond
            simp only [follow, hbeyond, hother, if_false,
              hload id (Nat.not_le.mp hbeyond), ih]

theorem postings_congr {source other : BlockSource} (hcount : source.count = other.count)
    (hload : ∀ id, id.toNat < source.count -> source.load id = other.load id)
    (capacity : Nat) (head : Option BlockId) :
    source.postings capacity head = other.postings capacity head := by
  rw [postings, postings, chain, chain, walk, walk, hcount,
    follow_congr hcount hload capacity other.count [] none head]

end BlockSource

/-- A view answers every question as an index does. -/
structure FileView.AgreesWith (view : FileView) (index : Index) : Prop where
  types : view.types = index.heads.types
  known : ∀ type, view.known type = index.known type
  headOf : ∀ entity, view.headOf entity = index.heads.headOf entity
  postings : ∀ entity, view.postings entity = index.postings entity
  games : ∀ expand entity, view.games expand entity = index.games expand entity
  answered : ∀ entity,
    (entity.type ∈ view.types ∧ ∃ list, view.postings entity = .ok list) ∨
      (entity.type ∉ view.types ∧
        view.postings entity = .error (.unknownType entity.type))
  numBlocks : view.numBlocks = index.pool.numBlocks
  freeIds : view.freeIds = .ok index.pool.free.ids
  loadBlock : ∀ id, id < view.numBlocks ->
    ∃ block, view.loadBlock id = .ok block ∧ index.arena.source.load id = .ok block

namespace File

variable {file : FileBytes} {header : FileHeader} {heads : HeadTable} {pages : List Page}
  {free : List BlockId} {index : Index}

namespace Reads

theorem opened (h : Reads file header heads pages free index) :
    FileView.Opened { file, header, heads } := by
  have hfree := exists_readFreeList_iff.mp ⟨free, h.readFree⟩
  constructor
  · exact h.readHeader
  · intro hzero
    have hpos := index.capacity_pos
    rw [h.capacity, hzero] at hpos
    exact Nat.lt_irrefl _ hpos
  · exact h.readHeads
  · exact h.small
  · exact h.pagesEnd ▸ header.freeTableOffset.toNat_lt
  · exact h.pagesEnd ▸ h.inFile
  · exact hfree.left
  · exact hfree.right

theorem numBlocks_eq (h : Reads file header heads pages free index) :
    header.numBlocks.toUInt32 = index.pool.numBlocks := by
  apply UInt32.toNat.inj
  rw [h.pool, Pool.ofParts, UInt64.toNat_toUInt32, Nat.mod_eq_of_lt h.small,
    UInt32.toNat_ofNat_of_lt' h.small]

theorem loadBlock_eq_ok (h : Reads file header heads pages free index) {id : BlockId}
    (hlt : id < index.pool.numBlocks) :
    ∃ block, FileView.loadBlock { file, header, heads } id = .ok block ∧
      index.arena.source.load id = .ok block := by
  rcases parse_of_readPages h.readPages with ⟨hlength, hparse⟩
  have hid : id < FileView.numBlocks { file, header, heads } := by
    rw [FileView.numBlocks, h.numBlocks_eq]
    exact hlt
  have hnumber : id.toNat < header.numBlocks.toNat :=
    h.opened.toNat_numBlocks ▸ UInt32.lt_iff_toNat_lt.mp hid
  have hpage : id.toNat < pages.length := hlength ▸ hnumber
  have hget : pages[id.toNat]? = some pages[id.toNat] := List.getElem?_eq_getElem hpage
  refine ⟨pages[id.toNat].block, ?_, ?_⟩
  · have hparsed := hparse id.toNat _ hget
    rw [UInt32.ofNat_toNat] at hparsed
    rw [h.opened.loadBlock_eq hid, hparsed]
    rfl
  · rw [load_source_eq_ok, h.arena, Arena.get?, List.getElem?_toArray, List.getElem?_map,
      hget]
    rfl

theorem source_postings_eq (h : Reads file header heads pages free index)
    (head : Option BlockId) :
    (FileView.source { file, header, heads }).postings header.capacity.toNat head =
      index.arena.source.postings index.capacity head := by
  have hstorable := storable_of_read (read_eq_ok.mpr ⟨_, _, _, _, h⟩)
  have hcount : (FileView.source { file, header, heads }).count =
      index.arena.source.count := by
    show header.numBlocks.toUInt32.toNat = index.arena.count.toNat
    rw [h.numBlocks_eq, Arena.toNat_count hstorable.addressed.addressed, hstorable.full]
  rw [h.capacity]
  apply BlockSource.postings_congr hcount
  intro id hlt
  have hid : id < index.pool.numBlocks := by
    rw [UInt32.lt_iff_toNat_lt, ← h.numBlocks_eq]
    exact hlt
  rcases h.loadBlock_eq_ok hid with ⟨block, hview, harena⟩
  show FileView.loadBlock { file, header, heads } id = _
  rw [hview, harena]

theorem postings_eq (h : Reads file header heads pages free index) (entity : Entity) :
    FileView.postings { file, header, heads } entity = index.postings entity := by
  rw [FileView.postings, FileView.headOf, Index.postings, Index.chain, ← h.table]
  cases hhead : index.heads.headOf entity with
  | error error =>
      rfl
  | ok head =>
      exact h.source_postings_eq head

theorem freeIds_eq (h : Reads file header heads pages free index) :
    FileView.freeIds { file, header, heads } = .ok index.pool.free.ids := by
  have hlength := (parse_of_readPages h.readPages).left
  have hascending : (Ascending.sort free).Pairwise (· < ·) := by
    rw [h.marked]
    exact markedFree_ascending (hlength ▸ Nat.le_of_lt h.small)
  rw [FileView.freeIds, h.readFree, h.pool, Pool.ofParts, Ascending.ids_ofList hascending]
  rfl

end Reads

/--
A file from which an index is read can be opened as a view, and the view
answers every question as the index does.
-/
theorem view_agrees_of_read (h : read file = .ok index) :
    ∃ view, FileView.ofFile file = .ok view ∧ view.AgreesWith index := by
  rcases read_eq_ok.mp h with ⟨header, heads, pages, free, hreads⟩
  refine ⟨{ file, header, heads }, FileView.ofFile_eq_ok.mpr ⟨rfl, hreads.opened⟩, ?_⟩
  constructor
  · rw [FileView.types, hreads.table]
  · intro type
    rw [FileView.known, Index.known, hreads.table]
  · intro entity
    rw [FileView.headOf, hreads.table]
  · exact hreads.postings_eq
  · intro expand entity
    rw [FileView.games, Index.games, hreads.postings_eq]
  · intro entity
    rw [hreads.postings_eq, FileView.types, ← hreads.table]
    by_cases hmem : entity.type ∈ index.heads.types
    · exact Or.inl ⟨hmem, _, (Index.verify_eq_ok.mp hreads.verified).postings_eq hmem⟩
    · exact Or.inr ⟨hmem, by rw [Index.postings, index.chain_of_not_mem hmem]; rfl⟩
  · exact hreads.numBlocks_eq
  · exact hreads.freeIds_eq
  · intro id hlt
    apply hreads.loadBlock_eq_ok
    rw [← hreads.numBlocks_eq]
    exact hlt

/--
A player loses one of two games, which frees a block, and two bytes follow the
file of the index.
-/
theorem view_agrees_of_read_player :
    ∃ start, Index.new { types := [.player], capacity := 1 } = .ok start ∧
      let index := start.steps [
        .update
          { entity := { type := .player, id := 0 }
            changes := Changes.ofList [(4, 1), (7, 2)] },
        .update
          { entity := { type := .player, id := 0 }
            changes := Changes.ofList [(4, 0)] }]
      let file := write index 0 ++ #[0, 0]
      read file = .ok index ∧
        ∃ view, FileView.ofFile file = .ok view ∧ view.AgreesWith index := by
  let start : Index :=
    { capacity := 1
      pool := Pool.empty
      heads := HeadTable.ofTypes [.player]
      arena := Arena.empty
      usable := by decide }
  refine ⟨start, rfl, ?_⟩
  intro index file
  have hread : read file = .ok index := by decide +kernel
  exact ⟨hread, view_agrees_of_read hread⟩

end File

end PostingIndex
