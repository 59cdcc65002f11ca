import PostingIndex.Proofs.FileWriting
import PostingIndex.Proofs.Steps

/-!
# Saving and loading along a run

Every index that a run reaches can be stored, and is the same after it was
written into a file and read back.  So reloads can stand anywhere in a run
without changing what it leads to.

## Contents

Indexes that can be stored at the start of a run, what an update leaves in the
arena, what steps keep, and runs with and without reloads.
-/

namespace PostingIndex

namespace File

def Unpacks (pack : List UInt8 -> List UInt8) (heads : HeadTable) : Prop :=
  Lz4.decompress? (pack (HeadSection.encode heads)) = some (HeadSection.encode heads)

instance decidableUnpacks (pack : List UInt8 -> List UInt8) (heads : HeadTable) :
    Decidable (Unpacks pack heads) :=
  inferInstanceAs (Decidable (_ = _))

theorem storable_of_read {file : FileBytes} {index : Index} (h : read file = .ok index) :
    index.Storable := by
  rcases read_eq_ok.mp h with ⟨header, heads, pages, free, hreads⟩
  rcases parse_of_readPages hreads.readPages with ⟨hlength, hparse⟩
  constructor
  · exact hreads.verified
  · rw [hreads.arena, hreads.pool, Pool.ofParts, Arena.size, List.size_toArray,
      List.length_map, hlength, UInt32.toNat_ofNat_of_lt' hreads.small]
  · intro block hblock
    rw [hreads.arena] at hblock
    rcases List.mem_map.mp (List.mem_toArray.mp hblock) with ⟨page, hpage, heq⟩
    rcases List.mem_iff_getElem?.mp hpage with ⟨number, hnumber⟩
    rw [← heq, hreads.capacity]
    exact (Page.exists_bytesWith_of_parse (hparse number page hnumber)).left

end File

namespace Index

theorem storable_new {config : Config} {index : Index} (h : new config = .ok index) :
    index.Storable := by
  rcases new_eq_ok.mp h with ⟨_, hpool, _, harena⟩
  constructor
  · exact verify_new h
  · rw [hpool, harena]
    rfl
  · rw [harena]
    exact Arena.each_empty _

/-!
## What an update leaves in the arena
-/

section Install

variable {index next : Index} {layout : Layout} {slot : Slot} {entity : Entity}
  {chain : List StoredBlock} {changes : Changes} {packing : Packing}

theorem mem_chainIds_of_mem_allocated (hpack : index.repack chain changes = .ok packing)
    {id : BlockId} (h : id ∈ packing.allocated) : id ∈ chainIds packing.chain := by
  rcases (mem_numbers hpack).mpr (Or.inr h) with hchain | hfreed
  · exact hchain
  · rcases (packs_repack hpack).frugal with hnone | hnone
    · rw [hnone] at h
      cases h
    · rw [hnone] at hfreed
      cases hfreed

namespace Laid

theorem mem_chainIds_of_new (h : index.Laid layout)
    (hpack : index.repack (layout slot) changes = .ok packing) {id : BlockId}
    (hnew : index.pool.numBlocks ≤ id) (hlt : id < packing.pool.numBlocks) :
    id ∈ chainIds packing.chain :=
  mem_chainIds_of_mem_allocated hpack
    (List.mem_reverse.mp ((h.supplied hpack).complete id hnew hlt))

theorem size_arena_install (h : index.Laid layout)
    (hpack : index.repack (layout slot) changes = .ok packing)
    (hinstall : index.install entity packing = .ok next)
    (hfull : index.arena.size = index.pool.numBlocks.toNat) :
    next.arena.size = next.pool.numBlocks.toNat := by
  have harena := arena_install hinstall
  have hgrows := UInt32.le_iff_toNat_le.mp (le_numBlocks_install hpack hinstall)
  apply Nat.le_antisymm
  · rw [harena, Arena.size_clearAll]
    apply Arena.size_writeAll_le (hfull ▸ hgrows)
    intro stored hmem
    rw [numBlocks_install hinstall]
    exact UInt32.lt_iff_toNat_lt.mp (h.lt_numBlocks_of_mem_writes hpack stored hmem)
  · rcases Nat.eq_or_lt_of_le hgrows with hsame | hmore
    · rw [← hsame, ← hfull, harena, Arena.size_clearAll]
      exact Arena.size_le_size_writeAll _ _
    · -- The last new number is stored, which grows the arena up to it.
      let last : Nat := next.pool.numBlocks.toNat - 1
      have hle : last < 2 ^ 32 := Nat.lt_of_le_of_lt (Nat.sub_le _ _) next.pool.numBlocks.toNat_lt
      have hlast : (UInt32.ofNat last).toNat = last := UInt32.toNat_ofNat_of_lt' hle
      have hchain : UInt32.ofNat last ∈ chainIds packing.chain := by
        apply h.mem_chainIds_of_new hpack
        · rw [UInt32.le_iff_toNat_le, hlast]
          exact Nat.le_sub_one_of_lt hmore
        · rw [← numBlocks_install hinstall, UInt32.lt_iff_toNat_lt, hlast]
          exact Nat.sub_one_lt_of_lt hmore
      rcases List.mem_map.mp hchain with ⟨stored, hstored, hid⟩
      have hlt := Arena.get?_eq_some_lt (h.get?_install_of_mem hpack hinstall hstored)
      rw [hid, hlast] at hlt
      exact Nat.le_of_pred_lt hlt

theorem each_arena_install (h : index.Laid layout)
    (hpack : index.repack (layout slot) changes = .ok packing)
    (hinstall : index.install entity packing = .ok next)
    (hfits : index.arena.Each (Block.FitsPage index.capacity)) :
    next.arena.Each (Block.FitsPage next.capacity) := by
  have hempty : Block.empty.FitsPage index.capacity :=
    ⟨Nat.zero_le _, fun hnext => by cases hnext⟩
  have hpacks := packs_repack hpack
  rw [(install_eq_ok.mp hinstall).right.left, arena_install hinstall]
  apply Arena.each_clearAll _ hempty
  apply Arena.each_writeAll hfits hempty
  intro stored hwrite
  have hmem := (Packing.writes_ofRuns_sublist hpack).subset hwrite
  constructor
  · exact (hpacks.fits stored hmem).right
  · intro hnext
    have hlink := hpacks.linked.mem_of_next hmem hnext
    have hlt := UInt32.lt_iff_toNat_lt.mp (h.lt_numBlocks_packing hpack (Or.inl hlink))
    have hsmall := packing.pool.numBlocks.toNat_lt
    rw [show Link.noBlock.toNat = 2 ^ 32 - 1 from rfl] at hlt
    omega

end Laid

end Install

/-!
## What steps keep
-/

theorem Storable.addressed {index : Index} (h : index.Storable) :
    index.Addressed index.readLayout := by
  apply addressed_of_verify h.verified
  rw [h.full]
  exact index.pool.numBlocks.toNat_lt

theorem updatesKeep_storable : UpdatesKeep Storable := by
  intro index entity changes result h hupdate
  rcases h.addressed.update hupdate with ⟨packing, hrepacks, _, hnext, _⟩
  exact ⟨hnext.verify, h.laid.size_arena_install hrepacks.packed hrepacks.installed h.full,
    h.laid.each_arena_install hrepacks.packed hrepacks.installed h.fits⟩

theorem lasting_storable : Lasting Storable where
  update := updatesKeep_storable
  read := File.storable_of_read

/-!
## Runs with and without reloads
-/

/-- An index that a run starts from: a new one, or one read from a file. -/
def Initial (index : Index) : Prop :=
  (∃ config, new config = .ok index) ∨ ∃ file, File.read file = .ok index

theorem Initial.storable {index : Index} (h : index.Initial) : index.Storable := by
  rcases h with ⟨config, hnew⟩ | ⟨file, hread⟩
  · exact storable_new hnew
  · exact File.storable_of_read hread

def withoutReloads : List Step -> List Step
  | [] => []
  | .reload _ _ :: rest => withoutReloads rest
  | .update request :: rest => .update request :: withoutReloads rest
  | .batch batch :: rest => .batch batch :: withoutReloads rest

def Unpacks (index : Index) : Step -> Prop
  | .update _ => True
  | .batch _ => True
  | .reload pack _ => File.Unpacks pack index.heads

/-- No step of a row writes a file whose head table does not unpack. -/
def AllUnpack (index : Index) : List Step -> Prop
  | [] => True
  | step :: rest => index.Unpacks step ∧ AllUnpack (index.step step) rest

instance decidableUnpacks (index : Index) : (step : Step) -> Decidable (index.Unpacks step)
  | .update _ => .isTrue trivial
  | .batch _ => .isTrue trivial
  | .reload pack _ => File.decidableUnpacks pack index.heads

instance decidableAllUnpack (index : Index) :
    (row : List Step) -> Decidable (AllUnpack index row)
  | [] => .isTrue trivial
  | step :: rest =>
      let _ := decidableAllUnpack (index.step step) rest
      inferInstanceAs (Decidable (index.Unpacks step ∧ AllUnpack (index.step step) rest))

theorem Storable.step_reload {index : Index} (h : index.Storable)
    {pack : List UInt8 -> List UInt8} (hpack : File.Unpacks pack index.heads)
    (createdAt : UInt64) : index.step (.reload pack createdAt) = index := by
  rw [Index.step, File.read_writeWith_of_storable h hpack]
  rfl

/-- Reloads do not change where a row of steps leads. -/
theorem Storable.steps_withoutReloads {index : Index} {row : List Step}
    (h : index.Storable) (hunpack : AllUnpack index row) :
    index.steps row = index.steps (withoutReloads row) := by
  induction row generalizing index with
  | nil =>
      rfl
  | cons step rest ih =>
      cases step with
      | update request =>
          exact ih (lasting_storable.step h _) hunpack.right
      | batch batch =>
          exact ih (lasting_storable.step h _) hunpack.right
      | reload pack createdAt =>
          have hsame := h.step_reload hunpack.left createdAt
          have hrest := hunpack.right
          rw [hsame] at hrest
          rw [Index.steps, List.foldl_cons, hsame]
          exact ih h hrest

/--
After every row of steps the index is read back from its file exactly as it is,
so the file of the reloaded index has the same bytes.  Reloads that are put
anywhere into the row change nothing.
-/
theorem reload_along_runs {start : Index} {row : List Step} (hstart : start.Initial) :
    (∀ pack createdAt, File.Unpacks pack (start.steps row).heads ->
      File.read (File.writeWith pack (start.steps row) createdAt) =
          .ok (start.steps row) ∧
        ∀ reloaded,
          File.read (File.writeWith pack (start.steps row) createdAt) = .ok reloaded ->
            File.writeWith pack reloaded createdAt =
              File.writeWith pack (start.steps row) createdAt) ∧
      ∀ mixed, withoutReloads mixed = row -> AllUnpack start mixed ->
        start.steps mixed = start.steps row := by
  have hstorable := hstart.storable
  constructor
  · intro pack createdAt hpack
    have hread := File.read_writeWith_of_storable (lasting_storable.steps hstorable row) hpack
      createdAt
    refine ⟨hread, ?_⟩
    intro reloaded hreloaded
    rw [hread, Except.ok.injEq] at hreloaded
    rw [hreloaded]
  · intro mixed hmixed hunpack
    rw [← hmixed]
    exact hstorable.steps_withoutReloads hunpack

/--
A player is introduced, a second one comes with a game of both, and the first
player leaves a game; reloads come between these steps and after them.
-/
theorem reload_along_player_run :
    let introduced : Step := .update
      { entity := { type := .player, id := 0 }
        changes := Changes.ofList [(4, 1), (7, 2)] }
    let joined : Step :=
      .batch [{ game := 9, new := some { white := some 0, black := some 1 } }]
    let left : Step := .update
      { entity := { type := .player, id := 0 }
        changes := Changes.ofList [(4, 0)] }
    let row : List Step := [introduced, joined, left]
    let mixed : List Step := [introduced, .reload Lz4.compress 0, joined,
      .reload Lz4.compress 1, left, .reload Lz4.compress 2]
    ∃ start, new { types := [.player], capacity := 1 } = .ok start ∧
      AllUnpack start mixed ∧
        File.read (File.write (start.steps row) 3) = .ok (start.steps row) ∧
          start.steps mixed = start.steps row := by
  intro introduced joined left row mixed
  let start : Index :=
    { capacity := 1
      pool := Pool.empty
      heads := HeadTable.ofTypes [.player]
      arena := Arena.empty
      usable := by decide }
  have hnew : new { types := [.player], capacity := 1 } = .ok start := rfl
  have hunpack : AllUnpack start mixed := by decide +kernel
  have hpack : File.Unpacks Lz4.compress (start.steps row).heads := by decide +kernel
  have hreload := @reload_along_runs start row (Or.inl ⟨_, hnew⟩)
  exact ⟨start, hnew, hunpack, (hreload.left _ 3 hpack).left, hreload.right mixed rfl hunpack⟩

end Index

end PostingIndex
