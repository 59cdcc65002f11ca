import Mathlib.Logic.Function.Basic
import PostingIndex.Index
import PostingIndex.Proofs.ArenaWrites
import PostingIndex.Proofs.BlockNumbers
import PostingIndex.Proofs.Slots
import PostingIndex.Proofs.UsableConfig

/-!
# Layouts of an index

A layout says which chain lies in which slot of the head table.  An index is
laid out soundly if the chains are stored where the heads say, no block number
lies on two of them or on one and among the free numbers, and every number that
was handed out lies on one of them or is free.

## Contents

Layouts, the layout of a new index, what an index answers when it is laid out
soundly, and what can stop an update of it.
-/

namespace PostingIndex

/-- The chain in each slot. -/
abbrev Layout :=
  Slot -> List StoredBlock

namespace Index

/-- The chains of an index are those of a layout and keep apart from each other. -/
structure Laid (index : Index) (layout : Layout) : Prop where
  starts : ∀ slot, chainHead (layout slot) = index.heads.headAt slot
  held : ∀ slot, index.arena.source.Holds (layout slot)
  sound : ∀ slot, SoundChain index.capacity (layout slot)
  separate : ∀ left right, ∀ id ∈ chainIds (layout left),
    id ∈ chainIds (layout right) -> left = right
  inUse : ∀ slot, ∀ id ∈ chainIds (layout slot), id ∉ index.pool.free
  covered : ∀ id, id < index.pool.numBlocks ->
    id ∈ index.pool.free ∨ ∃ slot, id ∈ chainIds (layout slot)
  freeWithin : index.pool.FreeWithin
  arenaWithin : index.arena.count ≤ index.pool.numBlocks

theorem usable_config (index : Index) : index.config.Usable :=
  Config.fault?_eq_none.mp index.usable

theorem capacity_pos (index : Index) : 0 < index.capacity :=
  index.usable_config.positive

theorem nodup_types (index : Index) : index.heads.types.Nodup :=
  index.usable_config.distinct

theorem ext_parts {left right : Index} (hcapacity : left.capacity = right.capacity)
    (hpool : left.pool = right.pool) (hheads : left.heads = right.heads)
    (harena : left.arena = right.arena) : left = right := by
  cases left
  cases right
  cases hcapacity
  cases hpool
  cases hheads
  cases harena
  rfl

/-!
## The first layout
-/

theorem ofParts_eq_ok {capacity : Nat} {pool : Pool} {heads : HeadTable} {arena : Arena}
    {index : Index} :
    ofParts capacity pool heads arena = .ok index ↔
      index.capacity = capacity ∧ index.pool = pool ∧ index.heads = heads ∧
        index.arena = arena := by
  unfold ofParts
  constructor
  · intro h
    split at h
    · cases h
    · cases h
      exact ⟨rfl, rfl, rfl, rfl⟩
  · intro h
    rcases index with ⟨capacity', pool', heads', arena', usable⟩
    rcases h with ⟨hcapacity, hpool, hheads, harena⟩
    cases hcapacity
    cases hpool
    cases hheads
    cases harena
    split
    · next fault hfault =>
        rw [usable] at hfault
        cases hfault
    · rfl

theorem new_eq_ok {config : Config} {index : Index} :
    new config = .ok index ↔
      index.capacity = config.capacity ∧ index.pool = Pool.empty ∧
        index.heads = HeadTable.ofTypes config.types ∧ index.arena = Arena.empty :=
  ofParts_eq_ok

theorem exists_new {config : Config} (h : config.Usable) :
    ∃ index, new config = .ok index := by
  have husable : Config.fault?
      { types := (HeadTable.ofTypes config.types).types
        capacity := config.capacity } = none := by
    rw [HeadTable.types_ofTypes]
    exact Config.fault?_eq_none.mpr h
  let index : Index :=
    { capacity := config.capacity
      pool := Pool.empty
      heads := HeadTable.ofTypes config.types
      arena := Arena.empty
      usable := husable }
  exact ⟨index, new_eq_ok.mpr ⟨rfl, rfl, rfl, rfl⟩⟩

theorem laid_new {config : Config} {index : Index} (h : new config = .ok index) :
    index.Laid fun _ => [] := by
  rcases new_eq_ok.mp h with ⟨_, hpool, hheads, harena⟩
  constructor
  · intro slot
    rw [hheads, HeadTable.headAt_ofTypes]
    rfl
  · intro slot
    exact ⟨trivial, fun _ hmem => by cases hmem⟩
  · intro slot
    exact soundChain_nil _
  · intro left right id hmem
    cases hmem
  · intro slot id hmem
    cases hmem
  · intro id hlt
    rw [hpool] at hlt
    exact absurd hlt UInt32.not_lt_zero
  · intro id hmem
    rw [hpool] at hmem
    exact absurd hmem (IdSet.not_mem_empty id)
  · rw [harena, hpool]
    exact UInt32.le_refl _

namespace Laid

variable {index : Index} {layout : Layout}

/-!
## Reading
-/

theorem lt_numBlocks (h : index.Laid layout) {slot : Slot} {id : BlockId}
    (hmem : id ∈ chainIds (layout slot)) : id < index.pool.numBlocks := by
  rcases List.mem_map.mp hmem with ⟨stored, hstored, hid⟩
  have hlt : stored.id < index.arena.count :=
    UInt32.lt_iff_toNat_lt.mpr ((h.held slot).stored stored hstored).left
  rw [← hid]
  exact UInt32.lt_of_lt_of_le hlt h.arenaWithin

theorem nodup_chainIds (h : index.Laid layout) (slot : Slot) :
    (chainIds (layout slot)).Nodup :=
  (h.held slot).nodup_chainIds (h.sound slot)

theorem walkFrom_result (h : index.Laid layout) (slot : Slot) :
    (index.walkFrom (index.heads.headAt slot)).result = .ok (layout slot) :=
  BlockSource.chain_eq_ok.mpr ⟨h.starts slot, h.held slot, h.sound slot⟩

theorem chain_eq (h : index.Laid layout) {entity : Entity}
    (hmem : entity.type ∈ index.heads.types) :
    index.chain entity = .ok (layout entity.slot) := by
  simp only [chain, HeadTable.headOf_of_mem hmem]
  exact h.walkFrom_result entity.slot

theorem postings_eq (h : index.Laid layout) {entity : Entity}
    (hmem : entity.type ∈ index.heads.types) :
    index.postings entity = .ok (chainPostings (layout entity.slot)) := by
  rw [postings, h.chain_eq hmem]
  rfl

theorem games_eq (h : index.Laid layout) {entity : Entity}
    (hmem : entity.type ∈ index.heads.types) (expand : Bool) :
    index.games expand entity =
      .ok (Posting.gameList expand (chainPostings (layout entity.slot))) := by
  rw [games, h.postings_eq hmem]
  rfl

theorem chainLength_eq (h : index.Laid layout) {entity : Entity}
    (hmem : entity.type ∈ index.heads.types) :
    index.chainLength entity = .ok (layout entity.slot).length := by
  rw [chainLength, h.chain_eq hmem]
  rfl

end Laid

theorem chain_of_not_mem (index : Index) {entity : Entity}
    (h : entity.type ∉ index.heads.types) :
    index.chain entity = .error (.unknownType entity.type) := by
  simp only [chain, HeadTable.headOf_of_not_mem h]
  rfl

/-!
## Updating
-/

def repack (index : Index) (chain : List StoredBlock) (changes : Changes) :
    Except IndexError Packing :=
  Packing.ofRuns index.capacity chain (Run.route chain changes.toList) index.pool

/-- How many numbers an update of a chain takes from the pool. -/
def demand (index : Index) (chain : List StoredBlock) (changes : Changes) : Nat :=
  Packing.demand index.capacity (Run.route chain changes.toList)

def account (entity : Entity) (changes : Changes) (packing : Packing) : EntityUpdate where
  entity := entity
  changes := changes.size
  written := packing.writes.length
  allocated := packing.allocated.length
  freed := packing.freed.length

/-- An update passes its checks, packs the chain that it found and leads to an index. -/
structure Repacks (index : Index) (entity : Entity) (changes : Changes)
    (chain : List StoredBlock) (packing : Packing) (next : Index) : Prop where
  check : index.heads.checkExtent entity = .ok ()
  found : index.chain entity = .ok chain
  packed : index.repack chain changes = .ok packing
  installed : index.install entity packing = .ok next

theorem update_eq_ok {index : Index} {entity : Entity} {changes : Changes}
    {result : Updated} :
    index.update entity changes = .ok result ↔
      ∃ chain packing, index.Repacks entity changes chain packing result.index ∧
        result.update = account entity changes packing := by
  simp only [update, Outcome.bind_eq_ok, Outcome.pure_eq_ok]
  constructor
  · rintro ⟨_, hcheck, chain, hchain, packing, hpacked, next, hinstalled, rfl⟩
    exact ⟨chain, packing, ⟨hcheck, hchain, hpacked, hinstalled⟩, rfl⟩
  · rintro ⟨chain, packing, ⟨hcheck, hchain, hpacked, hinstalled⟩, haccount⟩
    refine ⟨(), hcheck, chain, hchain, packing, hpacked, result.index, hinstalled, ?_⟩
    cases result
    cases haccount
    rfl

theorem update_eq_error {index : Index} {entity : Entity} {changes : Changes}
    {error : IndexError} :
    index.update entity changes = .error error ↔
      index.heads.checkExtent entity = .error error ∨
        (index.heads.checkExtent entity = .ok () ∧
          (index.chain entity = .error error ∨
            ∃ chain, index.chain entity = .ok chain ∧
              (index.repack chain changes = .error error ∨
                ∃ packing, index.repack chain changes = .ok packing ∧
                  index.install entity packing = .error error))) := by
  rw [update, Outcome.check_bind_eq_error]
  simp only [repack, Outcome.bind_eq_error, Outcome.pure_ne_error, and_false, exists_false,
    or_false]

theorem install_eq_ok {index next : Index} {entity : Entity} {packing : Packing} :
    index.install entity packing = .ok next ↔
      (∀ id ∈ packing.freed, id < packing.pool.numBlocks) ∧
        next.capacity = index.capacity ∧
          next.pool = { packing.pool with
            free := packing.freed.foldl IdSet.insert packing.pool.free } ∧
            next.heads = (index.heads.extend entity).put entity packing.head ∧
              next.arena = (index.arena.writeAll packing.writes).clearAll packing.freed := by
  simp only [install, Outcome.bind_eq_ok, Outcome.pure_eq_ok, Pool.foldlM_release_eq_ok]
  constructor
  · rintro ⟨pool, ⟨hfreed, hpool⟩, rfl⟩
    exact ⟨hfreed, rfl, hpool, rfl, rfl⟩
  · rintro ⟨hfreed, hcapacity, hpool, hheads, harena⟩
    exact ⟨_, ⟨hfreed, rfl⟩, ext_parts hcapacity.symm hpool.symm hheads.symm harena.symm⟩

theorem exists_install {index : Index} {entity : Entity} {packing : Packing}
    (h : ∀ id ∈ packing.freed, id < packing.pool.numBlocks) :
    ∃ next, index.install entity packing = .ok next := by
  simp only [install, Outcome.bind_eq_ok, Outcome.pure_eq_ok, Pool.foldlM_release_eq_ok]
  exact ⟨_, _, ⟨h, rfl⟩, rfl⟩

/-- Of the errors of an update only those of its checks are returned. -/
theorem checks_of_update_eq_error {index : Index} {entity : Entity} {changes : Changes}
    {error : IndexError} (h : index.update entity changes = .error error)
    (hreturned : error.Returned) :
    index.heads.checkExtent entity = .error error ∨
      (index.heads.checkExtent entity = .ok () ∧ index.chain entity = .error error) := by
  rcases update_eq_error.mp h with hcheck | ⟨hcheck, hchain | ⟨chain, _, hrest⟩⟩
  · exact Or.inl hcheck
  · exact Or.inr ⟨hcheck, hchain⟩
  · rcases hrest with hpack | ⟨packing, _, hinstall⟩
    · rw [(Packing.ofRuns_eq_error.mp hpack).right] at hreturned
      exact hreturned.elim
    · simp only [install, Outcome.bind_eq_error, Outcome.pure_ne_error, and_false,
        exists_false, or_false, Pool.foldlM_release_eq_error] at hinstall
      rcases hinstall with ⟨id, _, heq⟩
      rw [heq] at hreturned
      exact hreturned.elim

section Updated

variable {index : Index} {entity : Entity} {changes : Changes} {result : Updated}

theorem capacity_of_update (h : index.update entity changes = .ok result) :
    result.index.capacity = index.capacity := by
  rcases update_eq_ok.mp h with ⟨_, _, hrepacks, _⟩
  exact (install_eq_ok.mp hrepacks.installed).right.left

theorem heads_of_update (h : index.update entity changes = .ok result) :
    ∃ head, result.index.heads = (index.heads.extend entity).put entity head := by
  rcases update_eq_ok.mp h with ⟨_, packing, hrepacks, _⟩
  exact ⟨packing.head, (install_eq_ok.mp hrepacks.installed).right.right.right.left⟩

theorem types_of_update (h : index.update entity changes = .ok result) :
    result.index.heads.types = index.heads.types := by
  rcases heads_of_update h with ⟨head, hheads⟩
  rw [hheads, HeadTable.types_put, HeadTable.types_extend]

theorem extent_of_update (h : index.update entity changes = .ok result)
    (type : EntityType) :
    result.index.heads.extent type =
      if type = entity.type then max (index.heads.extent type) (entity.id.toNat + 1)
      else index.heads.extent type := by
  rcases heads_of_update h with ⟨head, hheads⟩
  rcases update_eq_ok.mp h with ⟨_, _, hrepacks, _⟩
  rcases HeadTable.le_extent_of_checkExtent hrepacks.check with ⟨hmem, hle⟩
  rw [hheads, HeadTable.extent_put_extend hmem hle]

end Updated

end Index

end PostingIndex
