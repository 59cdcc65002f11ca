import PostingIndex.Proofs.Isolation

/-!
# The step of a layout under an update

An update puts one chain in the place of another.  Its numbers are those of the
old chain and some from the pool, and every number that the new chain leaves out
goes back to the pool.  So the new chain keeps apart from all others, and a
sound layout stays sound.

## Contents

The numbers of a sound layout, the blocks that an update stores, the layout
afterwards, and what can stop an update of a soundly laid out index.
-/

namespace PostingIndex

namespace Index

def relaid (layout : Layout) (entity : Entity) (packing : Packing) : Layout :=
  Function.update layout entity.slot packing.chain

theorem relaid_self (layout : Layout) (entity : Entity) (packing : Packing) :
    relaid layout entity packing entity.slot = packing.chain :=
  Function.update_self _ _ _

theorem relaid_of_ne (layout : Layout) {entity : Entity} (packing : Packing) {slot : Slot}
    (h : slot ≠ entity.slot) : relaid layout entity packing slot = layout slot :=
  Function.update_of_ne h _ _

/-- A soundly laid out index whose whole arena is addressed by 32-bit numbers. -/
structure Addressed (index : Index) (layout : Layout) : Prop extends index.Laid layout where
  addressed : index.arena.size < 2 ^ 32

theorem addressed_new {config : Config} {index : Index} (h : new config = .ok index) :
    index.Addressed fun _ => [] := by
  rcases new_eq_ok.mp h with ⟨_, _, _, harena⟩
  refine { laid_new h with addressed := ?_ }
  rw [harena]
  decide

namespace Laid

variable {index next : Index} {layout : Layout} {slot : Slot} {entity : Entity}
  {changes : Changes} {packing : Packing}

/-!
## Numbers of a sound layout
-/

theorem supplied (h : index.Laid layout)
    (hpack : index.repack (layout slot) changes = .ok packing) :
    Pool.Supplied index.pool packing.allocated.reverse packing.pool :=
  (packs_repack hpack).supply.supplied h.freeWithin

theorem not_mem_allocated (h : index.Laid layout)
    (hpack : index.repack (layout slot) changes = .ok packing) {other : Slot} {id : BlockId}
    (hmem : id ∈ chainIds (layout other)) : id ∉ packing.allocated :=
  (h.owns other).not_mem_allocated hpack hmem

/-- No number is used twice, and none that is used is freed. -/
theorem nodup_numbers (h : index.Laid layout)
    (hpack : index.repack (layout slot) changes = .ok packing) :
    (chainIds packing.chain ++ packing.freed).Nodup := by
  rw [(perm_numbers hpack).nodup_iff, List.nodup_append]
  refine ⟨h.nodup_chainIds slot, List.nodup_reverse.mp (h.supplied hpack).distinct, ?_⟩
  intro id hid other hother heq
  exact h.not_mem_allocated hpack hid (heq ▸ hother)

theorem not_mem_chainIds (h : index.Laid layout) {other : Slot} (hne : other ≠ slot) :
    ∀ id ∈ chainIds (layout other), id ∉ chainIds (layout slot) :=
  fun id hmem hslot => hne (h.separate other slot id hmem hslot)

theorem not_mem_numbers (h : index.Laid layout)
    (hpack : index.repack (layout slot) changes = .ok packing) {other : Slot}
    (hne : other ≠ slot) {id : BlockId} (hmem : id ∈ chainIds (layout other)) :
    id ∉ chainIds packing.chain ∧ id ∉ packing.freed :=
  (h.owns other).not_mem_numbers hpack (h.not_mem_chainIds hne) hmem

theorem lt_numBlocks_packing (h : index.Laid layout)
    (hpack : index.repack (layout slot) changes = .ok packing) {id : BlockId}
    (hmem : id ∈ chainIds packing.chain ∨ id ∈ packing.freed) :
    id < packing.pool.numBlocks :=
  (h.owns slot).lt_numBlocks_packing h.freeWithin hpack hmem

theorem lt_numBlocks_of_mem_writes (h : index.Laid layout)
    (hpack : index.repack (layout slot) changes = .ok packing) :
    ∀ stored ∈ packing.writes, stored.id < packing.pool.numBlocks :=
  fun _ hmem => h.lt_numBlocks_packing hpack
    (Or.inl (mem_chainIds_of_mem_writes hpack (List.mem_map_of_mem hmem)))

theorem mem_free_install (h : index.Laid layout)
    (hpack : index.repack (layout slot) changes = .ok packing)
    (hinstall : index.install entity packing = .ok next) {id : BlockId} :
    id ∈ next.pool.free ↔
      (id ∈ index.pool.free ∧ id ∉ packing.allocated) ∨ id ∈ packing.freed := by
  rw [mem_free_of_install hinstall, (h.supplied hpack).free, List.mem_reverse]

theorem freeWithin_install (h : index.Laid layout)
    (hpack : index.repack (layout slot) changes = .ok packing)
    (hinstall : index.install entity packing = .ok next) : next.pool.FreeWithin :=
  (h.owns slot).freeWithin_install h.freeWithin hpack hinstall

/-!
## Blocks
-/

theorem get?_install_of_mem (h : index.Laid layout)
    (hpack : index.repack (layout slot) changes = .ok packing)
    (hinstall : index.install entity packing = .ok next) {stored : StoredBlock}
    (hmem : stored ∈ packing.chain) : next.arena.get? stored.id = some stored.block := by
  rw [arena_install hinstall]
  exact Packing.get?_of_mem_chain hpack (h.nodup_chainIds slot) (h.nodup_numbers hpack)
    (fun old hold => load_source_eq_ok.mp ((h.held slot).stored old hold).right) hmem

theorem count_le_count (h : index.Laid layout)
    (hpack : index.repack (layout slot) changes = .ok packing)
    (hinstall : index.install entity packing = .ok next) :
    index.arena.count ≤ next.arena.count :=
  count_le_count_install hinstall (h.lt_numBlocks_of_mem_writes hpack)

theorem soundChain_repack (h : index.Laid layout)
    (hpack : index.repack (layout slot) changes = .ok packing) :
    SoundChain index.capacity packing.chain ∧
      chainPostings packing.chain =
        Posting.merge (chainPostings (layout slot)) changes.toList := by
  have hpacks := packs_repack hpack
  have hsound := h.sound slot
  have hchanges := ascendingChanges_toList changes
  have hpostings : chainPostings packing.chain =
      Posting.merge (chainPostings (layout slot)) changes.toList := by
    rw [hpacks.postings]
    exact Run.runPostings_route hsound.filled hsound.ordered.ascending hchanges
  refine ⟨⟨?_, ?_, ?_⟩, hpostings⟩
  · intro stored hmem
    exact (hpacks.fits stored hmem).left
  · intro stored hmem
    exact (hpacks.fits stored hmem).right
  · rw [hpostings]
    exact Posting.ordered_merge hsound.ordered hchanges

/-!
## What can stop an update
-/

theorem repacks (h : index.Laid layout) {result : Updated}
    (hupdate : index.update entity changes = .ok result) :
    ∃ packing, index.Repacks entity changes (layout entity.slot) packing result.index ∧
      result.update = account entity changes packing := by
  rcases update_eq_ok.mp hupdate with ⟨chain, packing, hrepacks, haccount⟩
  have hmem := (HeadTable.checkExtent_eq_ok.mp hrepacks.check).left
  have hchain : layout entity.slot = chain :=
    Except.ok.inj ((h.chain_eq hmem).symm.trans hrepacks.found)
  exact ⟨packing, hchain ▸ hrepacks, haccount⟩

theorem update_eq_error (h : index.Laid layout) {error : IndexError} :
    index.update entity changes = .error error ↔
      index.heads.checkExtent entity = .error error ∨
        (index.heads.checkExtent entity = .ok () ∧
          index.pool.remaining < index.demand (layout entity.slot) changes ∧
            error = .aborted .addOverflow) :=
  (h.owns entity.slot).update_eq_error h.freeWithin

theorem exists_update (h : index.Laid layout)
    (hcheck : index.heads.checkExtent entity = .ok ())
    (hroom : index.demand (layout entity.slot) changes ≤ index.pool.remaining) :
    ∃ result, index.update entity changes = .ok result := by
  cases hupdate : index.update entity changes with
  | ok result =>
      exact ⟨result, rfl⟩
  | error error =>
      rcases h.update_eq_error.mp hupdate with hfailed | ⟨_, hshort, _⟩
      · rw [hcheck] at hfailed
        cases hfailed
      · exact absurd hshort (Nat.not_lt.mpr hroom)

end Laid

/-!
## The layout afterwards
-/

namespace Repacks

variable {index next : Index} {layout : Layout} {entity : Entity} {changes : Changes}
  {packing : Packing}

theorem starts (hrepacks : index.Repacks entity changes (layout entity.slot) packing next)
    (h : index.Laid layout) (slot : Slot) :
    chainHead (relaid layout entity packing slot) = next.heads.headAt slot := by
  rw [headAt_install hrepacks.check hrepacks.installed]
  by_cases heq : slot = entity.slot
  · rw [heq, relaid_self, if_pos rfl]
    rfl
  · rw [relaid_of_ne _ _ heq, if_neg heq]
    exact h.starts slot

theorem held (hrepacks : index.Repacks entity changes (layout entity.slot) packing next)
    (h : index.Laid layout) (hsize : next.arena.size < 2 ^ 32) (slot : Slot) :
    next.arena.source.Holds (relaid layout entity packing slot) := by
  by_cases heq : slot = entity.slot
  · rw [heq, relaid_self]
    refine ⟨(packs_repack hrepacks.packed).linked, ?_⟩
    intro stored hstored
    exact stored_of_get? hsize
      (h.get?_install_of_mem hrepacks.packed hrepacks.installed hstored)
  · rw [relaid_of_ne _ _ heq]
    exact (h.owns slot).holds_install hrepacks.packed hrepacks.installed
      (h.count_le_count hrepacks.packed hrepacks.installed) (h.not_mem_chainIds heq)

theorem separate (hrepacks : index.Repacks entity changes (layout entity.slot) packing next)
    (h : index.Laid layout) {left right : Slot} {id : BlockId}
    (hleft : id ∈ chainIds (relaid layout entity packing left))
    (hright : id ∈ chainIds (relaid layout entity packing right)) : left = right := by
  by_cases hl : left = entity.slot
  · by_cases hr : right = entity.slot
    · rw [hl, hr]
    · rw [hl, relaid_self] at hleft
      rw [relaid_of_ne _ _ hr] at hright
      exact absurd hleft (h.not_mem_numbers hrepacks.packed hr hright).left
  · by_cases hr : right = entity.slot
    · rw [hr, relaid_self] at hright
      rw [relaid_of_ne _ _ hl] at hleft
      exact absurd hright (h.not_mem_numbers hrepacks.packed hl hleft).left
    · rw [relaid_of_ne _ _ hl] at hleft
      rw [relaid_of_ne _ _ hr] at hright
      exact h.separate left right id hleft hright

theorem inUse (hrepacks : index.Repacks entity changes (layout entity.slot) packing next)
    (h : index.Laid layout) {slot : Slot} {id : BlockId}
    (hid : id ∈ chainIds (relaid layout entity packing slot)) : id ∉ next.pool.free := by
  have hpack := hrepacks.packed
  intro hfree
  rw [h.mem_free_install hpack hrepacks.installed] at hfree
  by_cases heq : slot = entity.slot
  · rw [heq, relaid_self] at hid
    rcases hfree with hfree | hfreed
    · rcases (mem_numbers hpack).mp (Or.inl hid) with hold | hallocated
      · exact h.inUse entity.slot id hold hfree.left
      · exact hfree.right hallocated
    · exact (List.nodup_append.mp (h.nodup_numbers hpack)).right.right id hid id hfreed rfl
  · rw [relaid_of_ne _ _ heq] at hid
    rcases hfree with hfree | hfreed
    · exact h.inUse slot id hid hfree.left
    · exact (h.not_mem_numbers hpack heq hid).right hfreed

theorem covered (hrepacks : index.Repacks entity changes (layout entity.slot) packing next)
    (h : index.Laid layout) {id : BlockId} (hlt : id < next.pool.numBlocks) :
    id ∈ next.pool.free ∨ ∃ slot, id ∈ chainIds (relaid layout entity packing slot) := by
  have hpack := hrepacks.packed
  rw [numBlocks_install hrepacks.installed] at hlt
  rw [h.mem_free_install hpack hrepacks.installed]
  by_cases hmoved : id ∈ chainIds (layout entity.slot) ∨ id ∈ packing.allocated
  · rcases (mem_numbers hpack).mpr hmoved with hchain | hfreed
    · exact Or.inr ⟨entity.slot, by rwa [relaid_self]⟩
    · exact Or.inl (Or.inr hfreed)
  · rcases not_or.mp hmoved with ⟨hold, hallocated⟩
    by_cases hknown : id < index.pool.numBlocks
    · rcases h.covered id hknown with hfree | ⟨slot, hslot⟩
      · exact Or.inl (Or.inl ⟨hfree, hallocated⟩)
      · have hne : slot ≠ entity.slot := fun heq => hold (heq ▸ hslot)
        exact Or.inr ⟨slot, by rwa [relaid_of_ne _ _ hne]⟩
    · exact absurd (List.mem_reverse.mp
        ((h.supplied hpack).complete id (UInt32.not_lt.mp hknown) hlt)) hallocated

theorem arenaWithin (hrepacks : index.Repacks entity changes (layout entity.slot) packing next)
    (h : index.Addressed layout) : next.arena.count ≤ next.pool.numBlocks := by
  have hwithin := UInt32.le_iff_toNat_le.mp h.arenaWithin
  have hmore := UInt32.le_iff_toNat_le.mp
    (le_numBlocks_install hrepacks.packed hrepacks.installed)
  rw [Arena.toNat_count h.addressed] at hwithin
  rw [UInt32.le_iff_toNat_le]
  apply Nat.le_trans (Arena.count_le_size _)
  rw [arena_install hrepacks.installed, Arena.size_clearAll]
  apply Arena.size_writeAll_le (Nat.le_trans hwithin hmore)
  intro stored hmem
  rw [numBlocks_install hrepacks.installed]
  exact UInt32.lt_iff_toNat_lt.mp (h.lt_numBlocks_of_mem_writes hrepacks.packed stored hmem)

theorem addressed
    (hrepacks : index.Repacks entity changes (layout entity.slot) packing next)
    (h : index.Addressed layout) : next.Addressed (relaid layout entity packing) := by
  have hsize : next.arena.size < 2 ^ 32 :=
    size_install_lt hrepacks.installed (h.lt_numBlocks_of_mem_writes hrepacks.packed)
      h.addressed
  refine ⟨⟨hrepacks.starts h.toLaid, hrepacks.held h.toLaid hsize, ?_,
    fun _ _ _ => hrepacks.separate h.toLaid, fun _ _ => hrepacks.inUse h.toLaid,
    fun _ => hrepacks.covered h.toLaid,
    h.freeWithin_install hrepacks.packed hrepacks.installed, hrepacks.arenaWithin h⟩, hsize⟩
  · intro slot
    rw [(install_eq_ok.mp hrepacks.installed).right.left]
    by_cases heq : slot = entity.slot
    · rw [heq, relaid_self]
      exact (h.soundChain_repack hrepacks.packed).left
    · rw [relaid_of_ne _ _ heq]
      exact h.sound slot

end Repacks

theorem Addressed.update {index : Index} {layout : Layout} {entity : Entity}
    {changes : Changes} {result : Updated} (h : index.Addressed layout)
    (hupdate : index.update entity changes = .ok result) :
    ∃ packing, index.Repacks entity changes (layout entity.slot) packing result.index ∧
      result.update = account entity changes packing ∧
        result.index.Addressed (relaid layout entity packing) ∧
          chainPostings packing.chain =
            Posting.merge (chainPostings (layout entity.slot)) changes.toList := by
  rcases h.repacks hupdate with ⟨packing, hrepacks, haccount⟩
  exact ⟨packing, hrepacks, haccount, hrepacks.addressed h,
    (h.soundChain_repack hrepacks.packed).right⟩

end Index

end PostingIndex
