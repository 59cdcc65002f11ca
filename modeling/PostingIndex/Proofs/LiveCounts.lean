import PostingIndex.Command
import PostingIndex.Proofs.Soundness
import PostingIndex.Proofs.ViewAgreement

/-!
# Live counts of opened views

A view reports the difference of two fields of a header: the count of block numbers ever
handed out, and the number of free ones.  Opening a file does not compare them.  The
difference is the count of blocks in use as long as the list of free blocks is no longer
than the count of numbers, as it is where an index is read from the file.  Otherwise the
report aborts.

## Contents

The list of free blocks of a view, and what is reported of it.
-/

namespace PostingIndex

theorem Report.liveBlocks_eq_ok {numBlocks : UInt32} {free : List BlockId} {live : Nat} :
    liveBlocks numBlocks free = .ok live ↔ live + free.length = numBlocks.toNat := by
  rw [liveBlocks, Checked.sub_eq_ok]
  omega

theorem Report.liveBlocks_of_lt {numBlocks : UInt32} {free : List BlockId}
    (h : numBlocks.toNat < free.length) :
    liveBlocks numBlocks free = .error (.aborted .subOverflow) :=
  if_neg (Nat.not_le.mpr h)

namespace FileView

variable {file : FileBytes} {view : FileView}

theorem length_of_freeIds {ids : List BlockId} (h : view.freeIds = .ok ids) :
    ids.length = view.header.freeCount.toNat := by
  rcases Outcome.map_eq_ok.mp h with ⟨listed, hlisted, rfl⟩
  exact (Ascending.perm_sort listed).length_eq.trans (File.length_of_readFreeList hlisted)

theorem pairwise_freeIds {ids : List BlockId} (h : view.freeIds = .ok ids) :
    ids.Pairwise (· ≤ ·) := by
  rcases Outcome.map_eq_ok.mp h with ⟨listed, _, rfl⟩
  exact Ascending.pairwise_sort listed

theorem runWith_blocks {ids : List BlockId} (hview : ofFile file = .ok view)
    (hids : view.freeIds = .ok ids) {directory : Directory} {path : String}
    (hmap : directory.map path = .ok file) (json : Bool) (pack : List UInt8 -> List UInt8)
    (now : UInt64) :
    (Command.blocks path json).runWith pack directory now =
      Outcome.after directory [] (Report.liveBlocks view.numBlocks ids) fun live =>
        { directory, output := Report.blocks json view.numBlocks live ids } := by
  simp only [Command.runWith, Command.runBlocks, Command.withView, Directory.openView, hmap,
    hview, hids, Outcome.after]

theorem parts_of_read {index : Index} {ids : List BlockId} (hview : ofFile file = .ok view)
    (hids : view.freeIds = .ok ids) (hread : File.read file = .ok index) :
    view.numBlocks = index.pool.numBlocks ∧ ids = index.pool.free.ids := by
  rcases File.read_eq_ok.mp hread with ⟨header, heads, pages, free, hreads⟩
  rw [ofFile_eq_ok.mpr ⟨rfl, hreads.opened⟩, Except.ok.injEq] at hview
  subst hview
  rw [hreads.freeIds_eq, Except.ok.injEq] at hids
  exact ⟨hreads.numBlocks_eq, hids.symm⟩

/--
The list of free blocks of a file that was opened has as many entries as the header
announces.  The live count that is reported adds up with it to the count of numbers as
long as the list is no longer than this count, and the report aborts otherwise.  Where
an index is read from the file, the list names distinct blocks that were handed out, and
the live count is that of the index.
-/
theorem live_count_of_ofFile (h : ofFile file = .ok view) :
    ∃ ids, view.freeIds = .ok ids ∧
      ids.length = view.header.freeCount.toNat ∧ ids.Pairwise (· ≤ ·) ∧
      (∀ directory path json pack now, Directory.map directory path = .ok file ->
        (ids.length ≤ view.numBlocks.toNat -> ∃ live,
          live + ids.length = view.numBlocks.toNat ∧
            (Command.blocks path json).runWith pack directory now =
              { directory, output := Report.blocks json view.numBlocks live ids }) ∧
        (view.numBlocks.toNat < ids.length ->
          (Command.blocks path json).runWith pack directory now =
            Outcome.failed directory [] (.aborted .subOverflow))) ∧
      ∀ index, File.read file = .ok index ->
        ids.Nodup ∧ (∀ id ∈ ids, id < view.numBlocks) ∧
          ids.length ≤ view.numBlocks.toNat ∧
            Report.liveBlocks view.numBlocks ids = index.pool.liveBlocks := by
  rcases (ofFile_eq_ok.mp h).right.exists_freeIds with ⟨ids, hids⟩
  refine ⟨ids, hids, length_of_freeIds hids, pairwise_freeIds hids, ?_, ?_⟩
  · intro directory path json pack now hmap
    have hrun := runWith_blocks h hids hmap json pack now
    constructor
    · intro hle
      have hadds := Nat.sub_add_cancel hle
      rw [Report.liveBlocks_eq_ok.mpr hadds] at hrun
      exact ⟨_, hadds, hrun⟩
    · intro hlonger
      rw [Report.liveBlocks_of_lt hlonger] at hrun
      exact hrun
  · intro index hread
    have hwithin := (File.storable_of_read hread).encodable.freeWithin
    have hsize : index.pool.free.ids.length ≤ index.pool.numBlocks.toNat :=
      Pool.size_free_le hwithin
    rcases parts_of_read h hids hread with ⟨hnumbers, rfl⟩
    rw [hnumbers]
    refine ⟨Ascending.nodup_of_key id index.pool.free.ascending, ?_, hsize, ?_⟩
    · intro id hmem
      exact UInt32.lt_iff_toNat_lt.mpr (hwithin id hmem)
    · rw [Pool.liveBlocks_eq_ok hwithin]
      exact Report.liveBlocks_eq_ok.mpr (Nat.sub_add_cancel hsize)

/-- One of two blocks is free in the file of an index of players. -/
theorem live_count_of_ofFile_player :
    let index : Index :=
      { capacity := 1
        pool := Pool.ofParts 2 [1]
        heads := { rows := [{ type := .player, heads := #[some 0] }] }
        arena := { blocks := #[{ postings := [{ game := 4, count := 1 }] }, {}] }
        usable := by decide }
    let file := File.write index 0
    let directory : Directory := { files := [(["games"], file)] }
    ∃ view, ofFile file = .ok view ∧ File.read file = .ok index ∧
      directory.map "games" = .ok file ∧
      ∃ ids live, view.freeIds = .ok ids ∧ ids.length ≤ view.numBlocks.toNat ∧
        live + ids.length = view.numBlocks.toNat ∧
        (Command.blocks "games" true).runWith Lz4.compress directory 0 =
          { directory, output := Report.blocks true view.numBlocks live ids } ∧
        Report.liveBlocks view.numBlocks ids = index.pool.liveBlocks := by
  intro index file directory
  let view : FileView :=
    { file
      header := File.headerOf index 0
        (Lz4.compress (HeadSection.encode index.heads)).length
      heads := index.heads }
  have hread : File.read file = .ok index := by decide +kernel
  have hmap : directory.map "games" = .ok file := by decide +kernel
  have hview : ofFile file = .ok view := by decide +kernel
  rcases live_count_of_ofFile hview with ⟨ids, hids, _, _, hreport, hindex⟩
  rcases hindex index hread with ⟨_, _, hle, hlive⟩
  rcases (hreport directory "games" true Lz4.compress 0 hmap).left hle with
    ⟨live, hadds, hrun⟩
  exact ⟨view, hview, hread, hmap, ids, live, hids, hle, hadds, hrun, hlive⟩

/--
A file without blocks that lists a free one can be opened, and its live count would be
less than zero.  No index is read from it.
-/
theorem live_count_underflows :
    let heads := HeadTable.ofTypes [.player]
    let header : FileHeader :=
      { capacity := 1
        typeCount := 1
        freeCount := 1
        blockTableOffset := 74
        freeTableOffset := 74 }
    let file : FileBytes := (header.encode ++
      (Lz4.compress (HeadSection.encode heads) ++ LittleEndian.bytes 4 0)).toArray
    let view : FileView := { file, header, heads }
    (ofFile file = .ok view ∧ view.freeIds = .ok [0] ∧ view.numBlocks = 0 ∧
      Report.liveBlocks view.numBlocks [0] = .error (.aborted .subOverflow) ∧
        File.read file = .error (.corruptData 74)) ∧
    ¬ ∀ file view ids, ofFile file = .ok view -> view.freeIds = .ok ids ->
      ids.length ≤ view.numBlocks.toNat := by
  intro heads header file view
  have hview : ofFile file = .ok view := by decide +kernel
  have hids : view.freeIds = .ok [0] := by decide +kernel
  refine ⟨⟨hview, hids, by decide, by decide, by decide +kernel⟩, ?_⟩
  intro hall
  exact absurd (hall file view [0] hview hids) (by decide)

end FileView

end PostingIndex
