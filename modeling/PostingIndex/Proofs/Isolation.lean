import PostingIndex.Proofs.Layout

/-!
# Chains that an update leaves alone

An update works on the numbers of one chain and on numbers that the pool hands
out.  A chain elsewhere that shares no number with it, and whose numbers were
handed out and are not free, is read afterwards as before.  The rest of the
index may be corrupt.

## Contents

The numbers that an update moves, the arena that it leaves, chains that own their
numbers, and updates of other entities and of the owner.
-/

namespace PostingIndex

namespace Index

variable {index next : Index} {slot : Slot} {entity : Entity} {chain kept : List StoredBlock}
  {changes : Changes} {packing : Packing}

/-!
## The numbers of a packing
-/

theorem packs_repack (h : index.repack chain changes = .ok packing) :
    Packing.Packs index.capacity (Run.route chain changes.toList) index.pool packing :=
  Packing.packs_ofRuns index.capacity_pos h

theorem drawn_repack (h : index.repack chain changes = .ok packing) :
    Pool.Drawn index.pool packing.allocated.reverse packing.pool :=
  (packs_repack h).supply.drawn

theorem perm_numbers (h : index.repack chain changes = .ok packing) :
    (chainIds packing.chain ++ packing.freed).Perm (chainIds chain ++ packing.allocated) := by
  have hperm := (packs_repack h).numbers
  rw [Run.origins, Run.filterMap_origin_route] at hperm
  exact hperm

theorem mem_numbers (h : index.repack chain changes = .ok packing) {id : BlockId} :
    (id ∈ chainIds packing.chain ∨ id ∈ packing.freed) ↔
      id ∈ chainIds chain ∨ id ∈ packing.allocated := by
  rw [← List.mem_append, ← List.mem_append]
  exact (perm_numbers h).mem_iff

theorem mem_chainIds_of_mem_writes (h : index.repack chain changes = .ok packing)
    {id : BlockId} (hmem : id ∈ packing.writes.map StoredBlock.id) :
    id ∈ chainIds packing.chain :=
  ((Packing.writes_ofRuns_sublist h).map _).subset hmem

theorem lt_numBlocks_of_mem_free (hwithin : index.pool.FreeWithin)
    (hpack : index.repack chain changes = .ok packing) :
    ∀ id ∈ index.pool.free, id < packing.pool.numBlocks :=
  fun id hmem => UInt32.lt_of_lt_of_le (hwithin id hmem) (drawn_repack hpack).le_numBlocks

theorem numBlocks_install (h : index.install entity packing = .ok next) :
    next.pool.numBlocks = packing.pool.numBlocks := by
  rw [(install_eq_ok.mp h).right.right.left]

theorem mem_free_of_install (h : index.install entity packing = .ok next) {id : BlockId} :
    id ∈ next.pool.free ↔ id ∈ packing.pool.free ∨ id ∈ packing.freed := by
  rw [(install_eq_ok.mp h).right.right.left]
  exact Pool.mem_foldl_insert

theorem le_numBlocks_install (hpack : index.repack chain changes = .ok packing)
    (hinstall : index.install entity packing = .ok next) :
    index.pool.numBlocks ≤ next.pool.numBlocks := by
  rw [numBlocks_install hinstall]
  exact (drawn_repack hpack).le_numBlocks

/-!
## The arena afterwards
-/

theorem arena_install (h : index.install entity packing = .ok next) :
    next.arena = (index.arena.writeAll packing.writes).clearAll packing.freed :=
  (install_eq_ok.mp h).right.right.right.right

theorem headAt_install (hcheck : index.heads.checkExtent entity = .ok ())
    (h : index.install entity packing = .ok next) (slot : Slot) :
    next.heads.headAt slot =
      if slot = entity.slot then packing.head else index.heads.headAt slot := by
  rcases HeadTable.le_extent_of_checkExtent hcheck with ⟨hmem, hle⟩
  rw [(install_eq_ok.mp h).right.right.right.left, HeadTable.headAt_put_extend hmem hle]

theorem get?_install_of_not_mem (hpack : index.repack chain changes = .ok packing)
    (hinstall : index.install entity packing = .ok next) {id : BlockId}
    (hchain : id ∉ chainIds packing.chain) (hfreed : id ∉ packing.freed)
    (hlt : id.toNat < index.arena.size) : next.arena.get? id = index.arena.get? id := by
  rw [arena_install hinstall, Arena.get?_clearAll_of_not_mem hfreed,
    Arena.get?_writeAll_of_not_mem
      (fun hwrite => hchain (mem_chainIds_of_mem_writes hpack hwrite)) hlt]

theorem size_install_lt {bound : UInt32} (hinstall : index.install entity packing = .ok next)
    (hwrites : ∀ stored ∈ packing.writes, stored.id < bound)
    (hsize : index.arena.size < 2 ^ 32) : next.arena.size < 2 ^ 32 := by
  rw [arena_install hinstall, Arena.size_clearAll]
  exact Arena.size_writeAll_lt hsize hwrites

theorem count_le_count_install {bound : UInt32}
    (hinstall : index.install entity packing = .ok next)
    (hwrites : ∀ stored ∈ packing.writes, stored.id < bound) :
    index.arena.count ≤ next.arena.count := by
  have hle : index.arena.size ≤ next.arena.size := by
    rw [arena_install hinstall, Arena.size_clearAll]
    exact Arena.size_le_size_writeAll _ _
  rw [UInt32.le_iff_toNat_le]
  by_cases hsize : index.arena.size < 2 ^ 32
  · rw [Arena.toNat_count hsize, Arena.toNat_count (size_install_lt hinstall hwrites hsize)]
    exact hle
  · -- Every number lies within the arena already, so it does not grow.
    have hsame : next.arena.size ≤ index.arena.size := by
      rw [arena_install hinstall, Arena.size_clearAll]
      apply Arena.size_writeAll_le (Nat.le_refl _)
      intro stored _
      have hlt := stored.id.toNat_lt
      omega
    rw [Arena.count, Arena.count, Nat.le_antisymm hle hsame]

/-!
## Chains elsewhere
-/

/-- A slot holds a chain whose numbers were handed out and are not free. -/
structure Owns (index : Index) (slot : Slot) (chain : List StoredBlock) : Prop where
  read : (index.walkFrom (index.heads.headAt slot)).result = .ok chain
  inUse : ∀ id ∈ chainIds chain, id ∉ index.pool.free
  below : ∀ id ∈ chainIds chain, id < index.pool.numBlocks

namespace Owns

theorem not_mem_allocated (h : index.Owns slot kept)
    (hpack : index.repack chain changes = .ok packing) {id : BlockId}
    (hmem : id ∈ chainIds kept) : id ∉ packing.allocated := by
  intro hallocated
  rcases (drawn_repack hpack).unused id (List.mem_reverse.mpr hallocated) with
    hfree | ⟨hnew, _⟩
  · exact h.inUse id hmem hfree
  · exact absurd (h.below id hmem) (UInt32.not_lt.mpr hnew)

theorem not_mem_numbers (h : index.Owns slot kept)
    (hpack : index.repack chain changes = .ok packing)
    (hapart : ∀ id ∈ chainIds kept, id ∉ chainIds chain) {id : BlockId}
    (hmem : id ∈ chainIds kept) : id ∉ chainIds packing.chain ∧ id ∉ packing.freed := by
  rw [← not_or, mem_numbers hpack, not_or]
  exact ⟨hapart id hmem, h.not_mem_allocated hpack hmem⟩

theorem holds_install (h : index.Owns slot kept)
    (hpack : index.repack chain changes = .ok packing)
    (hinstall : index.install entity packing = .ok next)
    (hcount : index.arena.count ≤ next.arena.count)
    (hapart : ∀ id ∈ chainIds kept, id ∉ chainIds chain) :
    next.arena.source.Holds kept := by
  rcases BlockSource.chain_eq_ok.mp h.read with ⟨_, hholds, _⟩
  refine ⟨hholds.linked, ?_⟩
  intro stored hmem
  have hid : stored.id ∈ chainIds kept := List.mem_map.mpr ⟨stored, hmem, rfl⟩
  rcases h.not_mem_numbers hpack hapart hid with ⟨hchain, hfreed⟩
  rcases hholds.stored stored hmem with ⟨hlt, hload⟩
  have hget := load_source_eq_ok.mp hload
  refine ⟨Nat.lt_of_lt_of_le hlt (UInt32.le_iff_toNat_le.mp hcount), load_source_eq_ok.mpr ?_⟩
  rw [get?_install_of_not_mem hpack hinstall hchain hfreed (Arena.get?_eq_some_lt hget)]
  exact hget

/-- An update of another entity leaves a chain alone that shares no number with its own. -/
theorem install (h : index.Owns slot kept)
    (hcheck : index.heads.checkExtent entity = .ok ())
    (hpack : index.repack chain changes = .ok packing)
    (hinstall : index.install entity packing = .ok next)
    (hcount : index.arena.count ≤ next.arena.count) (hne : slot ≠ entity.slot)
    (hapart : ∀ id ∈ chainIds kept, id ∉ chainIds chain) : next.Owns slot kept := by
  rcases BlockSource.chain_eq_ok.mp h.read with ⟨hhead, _, hsound⟩
  constructor
  · apply BlockSource.chain_eq_ok.mpr
    refine ⟨?_, h.holds_install hpack hinstall hcount hapart, ?_⟩
    · rw [headAt_install hcheck hinstall, if_neg hne]
      exact hhead
    · rw [(install_eq_ok.mp hinstall).right.left]
      exact hsound
  · intro id hmem hfree
    rcases (mem_free_of_install hinstall).mp hfree with hfree | hfreed
    · exact h.inUse id hmem ((drawn_repack hpack).free id hfree)
    · exact (h.not_mem_numbers hpack hapart hmem).right hfreed
  · intro id hmem
    exact UInt32.lt_of_lt_of_le (h.below id hmem) (le_numBlocks_install hpack hinstall)

theorem chain_eq (h : index.Owns entity.slot chain)
    (hmem : entity.type ∈ index.heads.types) : index.chain entity = .ok chain := by
  simp only [Index.chain, HeadTable.headOf_of_mem hmem]
  exact h.read

/-!
## An update of the own chain
-/

theorem lt_bound (h : index.Owns slot chain) {bound : UInt32}
    (hfree : ∀ id ∈ index.pool.free, id < bound)
    (hpack : index.repack chain changes = .ok packing)
    (hcount : packing.pool.numBlocks ≤ bound) {id : BlockId}
    (hmem : id ∈ chainIds packing.chain ∨ id ∈ packing.freed) : id < bound := by
  rcases (mem_numbers hpack).mp hmem with hold | hallocated
  · exact UInt32.lt_of_lt_of_le (h.below id hold)
      (UInt32.le_trans (drawn_repack hpack).le_numBlocks hcount)
  · exact (drawn_repack hpack).lt_bound hfree hcount (List.mem_reverse.mpr hallocated)

theorem lt_bound_of_mem_writes (h : index.Owns slot chain) {bound : UInt32}
    (hfree : ∀ id ∈ index.pool.free, id < bound)
    (hpack : index.repack chain changes = .ok packing)
    (hcount : packing.pool.numBlocks ≤ bound) :
    ∀ stored ∈ packing.writes, stored.id < bound :=
  fun _ hmem => h.lt_bound hfree hpack hcount
    (Or.inl (mem_chainIds_of_mem_writes hpack (List.mem_map_of_mem hmem)))

theorem free_lt_bound (h : index.Owns slot chain) {bound : UInt32}
    (hfree : ∀ id ∈ index.pool.free, id < bound)
    (hpack : index.repack chain changes = .ok packing)
    (hinstall : index.install entity packing = .ok next)
    (hcount : packing.pool.numBlocks ≤ bound) : ∀ id ∈ next.pool.free, id < bound := by
  intro id hmem
  rcases (mem_free_of_install hinstall).mp hmem with hleft | hfreed
  · exact hfree id ((drawn_repack hpack).free id hleft)
  · exact h.lt_bound hfree hpack hcount (Or.inr hfreed)

theorem lt_numBlocks_packing (h : index.Owns slot chain) (hwithin : index.pool.FreeWithin)
    (hpack : index.repack chain changes = .ok packing) {id : BlockId}
    (hmem : id ∈ chainIds packing.chain ∨ id ∈ packing.freed) :
    id < packing.pool.numBlocks :=
  h.lt_bound (lt_numBlocks_of_mem_free hwithin hpack) hpack (UInt32.le_refl _) hmem

theorem freeWithin_install (h : index.Owns slot chain) (hwithin : index.pool.FreeWithin)
    (hpack : index.repack chain changes = .ok packing)
    (hinstall : index.install entity packing = .ok next) : next.pool.FreeWithin := by
  intro id hfree
  rw [numBlocks_install hinstall]
  exact h.free_lt_bound (lt_numBlocks_of_mem_free hwithin hpack) hpack hinstall
    (UInt32.le_refl _) id hfree

theorem update_eq_error (h : index.Owns entity.slot chain)
    (hwithin : index.pool.FreeWithin) {error : IndexError} :
    index.update entity changes = .error error ↔
      index.heads.checkExtent entity = .error error ∨
        (index.heads.checkExtent entity = .ok () ∧
          index.pool.remaining < index.demand chain changes ∧
            error = .aborted .addOverflow) := by
  rw [Index.update_eq_error]
  apply or_congr_right
  apply and_congr_right
  intro hcheck
  rw [h.chain_eq (HeadTable.checkExtent_eq_ok.mp hcheck).left]
  constructor
  · rintro (hfound | ⟨chain, hchain, hfailed⟩)
    · cases hfound
    · cases hchain
      rcases hfailed with hpack | ⟨packing, hpack, hinstall⟩
      · exact Packing.ofRuns_eq_error.mp hpack
      · have hinstalls : ∃ next, index.install entity packing = .ok next :=
          exists_install fun _ hmem => h.lt_numBlocks_packing hwithin hpack (Or.inr hmem)
        rcases hinstalls with ⟨next, hnext⟩
        rw [hnext] at hinstall
        cases hinstall
  · rintro ⟨hshort, herror⟩
    exact Or.inr ⟨_, rfl, Or.inl (Packing.ofRuns_eq_error.mpr ⟨hshort, herror⟩)⟩

end Owns

theorem Laid.owns {layout : Layout} (h : index.Laid layout) (slot : Slot) :
    index.Owns slot (layout slot) where
  read := h.walkFrom_result slot
  inUse := h.inUse slot
  below := fun _ hmem => h.lt_numBlocks hmem

end Index

end PostingIndex
