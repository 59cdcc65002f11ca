import PostingIndex.Proofs.BatchExtents

/-!
# Entities that an update spares

All entities draw from one pool and one arena.  Still an update works on the
numbers of one chain, on free numbers and on new ones, and no other chain has any
of these.  So the rows and the chains of all other entities are read as before,
block for block, and the arena changes at no other number.

## Contents

What a slot holds, entities that are spared, the numbers at which an update
changes the arena, and what batches spare.
-/

namespace PostingIndex

namespace HeadTable

def found? (table : HeadTable) (slot : Slot) : Option (Option BlockId) :=
  (table.heads? slot.type).bind fun heads => heads[slot.place]?

theorem getElem?_extendHeads_ne {id : EntityId} {heads : Array (Option BlockId)} {place : Nat}
    (h : place ≠ id.toNat) : (extendHeads id heads)[place]? = heads[place]? := by
  unfold extendHeads
  by_cases hnext : id.toNat = heads.size
  · rw [if_pos hnext, Array.getElem?_push, if_neg (hnext ▸ h)]
  · rw [if_neg hnext]

theorem heads?_put_extend (table : HeadTable) (entity : Entity) (head : Option BlockId)
    (type : EntityType) :
    ((table.extend entity).put entity head).heads? type =
      if type = entity.type then
        (table.heads? type).map fun heads =>
          (extendHeads entity.id heads).setIfInBounds entity.id.toNat head
      else
        table.heads? type := by
  rw [put_eq_putAt, heads?_putAt, heads?_extend]
  by_cases htype : type = entity.type
  · simp [htype, Entity.slot, Function.comp_def]
  · simp [htype, Entity.slot]

theorem found?_put_extend_of_ne (table : HeadTable) {entity : Entity} (head : Option BlockId)
    {slot : Slot} (h : slot ≠ entity.slot) :
    ((table.extend entity).put entity head).found? slot = table.found? slot := by
  rcases slot with ⟨type, place⟩
  rw [found?, heads?_put_extend, found?]
  by_cases htype : type = entity.type
  · have hplace : place ≠ entity.id.toNat := by
      intro heq
      apply h
      rw [Entity.slot, htype, heq]
    rw [if_pos htype]
    cases table.heads? type with
    | none =>
        rfl
    | some heads =>
        show ((extendHeads entity.id heads).setIfInBounds entity.id.toNat head)[place]? =
          heads[place]?
        rw [Array.getElem?_setIfInBounds_ne hplace.symm, getElem?_extendHeads_ne hplace]
  · rw [if_neg htype]

end HeadTable

namespace Index

variable {index : Index} {layout : Layout} {entity other : Entity}
  {changes : Changes} {result : Updated}

/-- The row of an entity, its head and its whole chain are the same in two indexes. -/
structure Spares (before after : Index) (other : Entity) : Prop where
  row : after.heads.found? other.slot = before.heads.found? other.slot
  head : after.heads.headOf other = before.heads.headOf other
  chain : after.chain other = before.chain other

theorem Spares.refl (index : Index) (other : Entity) : index.Spares index other :=
  ⟨rfl, rfl, rfl⟩

theorem Spares.trans {before between after : Index} (hfirst : before.Spares between other)
    (hnext : between.Spares after other) : before.Spares after other :=
  ⟨hnext.row.trans hfirst.row, hnext.head.trans hfirst.head, hnext.chain.trans hfirst.chain⟩

/-!
## One update
-/

theorem found?_update (hupdate : index.update entity changes = .ok result)
    (hne : other ≠ entity) :
    result.index.heads.found? other.slot = index.heads.found? other.slot := by
  rcases heads_of_update hupdate with ⟨head, hheads⟩
  rw [hheads]
  exact HeadTable.found?_put_extend_of_ne _ head fun heq => hne (Entity.slot_inj heq)

theorem Laid.chain_update_of_ne (h : index.Laid layout)
    (hupdate : index.update entity changes = .ok result) (hne : other ≠ entity) :
    result.index.chain other = index.chain other := by
  by_cases hmem : other.type ∈ index.heads.types
  · have hslot : other.slot ≠ entity.slot := fun heq => hne (Entity.slot_inj heq)
    rcases h.repacks hupdate with ⟨packing, hrepacks, _⟩
    have hcount := h.count_le_count hrepacks.packed hrepacks.installed
    have howns := (h.owns other.slot).install hrepacks.check hrepacks.packed
      hrepacks.installed hcount hslot (h.not_mem_chainIds hslot)
    rw [h.chain_eq hmem, howns.chain_eq (types_of_update hupdate ▸ hmem)]
  · rw [index.chain_of_not_mem hmem,
      result.index.chain_of_not_mem (types_of_update hupdate ▸ hmem)]

theorem Laid.headOf_update_of_ne (h : index.Laid layout)
    (hupdate : index.update entity changes = .ok result) (hne : other ≠ entity) :
    result.index.heads.headOf other = index.heads.headOf other := by
  by_cases hmem : other.type ∈ index.heads.types
  · have hslot : other.slot ≠ entity.slot := fun heq => hne (Entity.slot_inj heq)
    rcases h.repacks hupdate with ⟨packing, hrepacks, _⟩
    rw [HeadTable.headOf_of_mem hmem,
      HeadTable.headOf_of_mem (types_of_update hupdate ▸ hmem),
      headAt_install hrepacks.check hrepacks.installed, if_neg hslot]
  · rw [HeadTable.headOf_of_not_mem hmem,
      HeadTable.headOf_of_not_mem (types_of_update hupdate ▸ hmem)]

theorem Laid.spares_update (h : index.Laid layout)
    (hupdate : index.update entity changes = .ok result) (hne : other ≠ entity) :
    index.Spares result.index other where
  row := found?_update hupdate hne
  head := h.headOf_update_of_ne hupdate hne
  chain := h.chain_update_of_ne hupdate hne

theorem Laid.mem_of_get?_update_ne (h : index.Laid layout)
    (hupdate : index.update entity changes = .ok result) {id : BlockId}
    (hchanged : result.index.arena.get? id ≠ index.arena.get? id) :
    id ∈ chainIds (layout entity.slot) ∨ id ∈ index.pool.free ∨
      index.pool.numBlocks ≤ id := by
  by_contra hnone
  push Not at hnone
  rcases hnone with ⟨hown, hfree, hlt⟩
  rcases h.repacks hupdate with ⟨packing, hrepacks, _⟩
  -- Every other number that was handed out lies on another chain.
  rcases h.covered id (UInt32.not_le.mp hlt) with hfree' | ⟨slot, hmem⟩
  · exact hfree hfree'
  · have hne : slot ≠ entity.slot := fun heq => hown (heq ▸ hmem)
    rcases h.not_mem_numbers hrepacks.packed hne hmem with ⟨hchain, hfreed⟩
    rcases List.mem_map.mp hmem with ⟨stored, hstored, hid⟩
    have hheld := Nat.lt_of_lt_of_le ((h.held slot).stored stored hstored).left
      (Arena.count_le_size _)
    rw [hid] at hheld
    exact hchanged (get?_install_of_not_mem hrepacks.packed hrepacks.installed hchain hfreed
      hheld)

/-!
## Batches
-/

theorem Addressed.spares_runUpdates {run : BatchRun} {entries : List (Entity × Changes)}
    (h : run.index.Addressed layout) (hother : other ∉ entries.map Prod.fst) :
    run.index.Spares (Index.runUpdates run entries).index other := by
  induction entries generalizing run layout with
  | nil =>
      exact Spares.refl _ other
  | cons entry rest ih =>
      rcases entry with ⟨first, asked⟩
      rw [List.map_cons, List.mem_cons, not_or] at hother
      rw [Index.runUpdates]
      cases hupdate : run.index.update first asked with
      | error error =>
          exact Spares.refl _ other
      | ok result =>
          rcases h.update hupdate with ⟨packing, _, _, haddressed, _⟩
          let after : BatchRun :=
            { run with index := result.index, updates := result.update :: run.updates }
          have hafter : after.index.Addressed _ := haddressed
          exact (h.spares_update hupdate hother.left).trans (ih hafter hother.right)

theorem Addressed.spares_apply {batch : List GameChange} (h : index.Addressed layout)
    (hother : ¬ GameChange.Touched batch other) :
    index.Spares (index.apply batch).index other := by
  cases hprepare : index.prepare batch with
  | error error =>
      rw [apply_of_prepare_error hprepare]
      exact Spares.refl index other
  | ok asked =>
      have hcollect := (prepare_eq_ok.mp hprepare).left
      rw [← EntityChanges.mem_keys_ofBatch hcollect,
        ← Std.TreeMap.map_fst_toList_eq_keys] at hother
      rw [apply_of_prepare_ok hprepare]
      let start : BatchRun := { index }
      have hstart : start.index.Addressed layout := h
      exact hstart.spares_runUpdates hother

/-!
## What an update spares
-/

/--
On an audited index an update spares every other entity and the rows of every other
catalogue.  It changes the arena only at numbers that were on the chain of its entity,
free, or not handed out yet.
-/
theorem update_spares_others (hverify : index.verify = .ok ())
    (hupdate : index.update entity changes = .ok result) :
    (∀ other, other ≠ entity -> index.Spares result.index other) ∧
    (∀ type, type ≠ entity.type -> result.index.heads.heads? type = index.heads.heads? type) ∧
    ∃ chain, index.chain entity = .ok chain ∧
      ∀ id, result.index.arena.get? id ≠ index.arena.get? id ->
        id ∈ chainIds chain ∨ id ∈ index.pool.free ∨ index.pool.numBlocks ≤ id := by
  have h := verify_eq_ok.mp hverify
  rcases h.repacks hupdate with ⟨packing, hrepacks, _⟩
  refine ⟨?_, ?_, index.readLayout entity.slot, hrepacks.found, ?_⟩
  · intro other hne
    exact h.spares_update hupdate hne
  · intro type hne
    rcases heads_of_update hupdate with ⟨head, hheads⟩
    rw [hheads, HeadTable.heads?_put_extend, if_neg hne]
  · intro id hchanged
    exact h.mem_of_get?_update_ne hupdate hchanged

/-- The first player gets the free block and a new one, and all others are read as before. -/
theorem update_spares_others_players :
    let index : Index :=
      { capacity := 1
        pool := Pool.ofParts 4 [1]
        heads := { rows := [
          { type := .player, heads := #[some 0, none, some 3] },
          { type := .tournament, heads := #[some 2] }] }
        arena := { blocks := #[
          { postings := [{ game := 4, count := 1 }] },
          {},
          { postings := [{ game := 7, count := 2 }] },
          { postings := [{ game := 4, count := 1 }] }] }
        usable := by decide }
    let entity : Entity := { type := .player, id := 0 }
    let changes := Changes.ofList [(5, 1), (6, 1)]
    ∃ result, index.verify = .ok () ∧ index.update entity changes = .ok result ∧
      result.index.pool.numBlocks = 5 ∧
      (∀ other, other ≠ entity -> index.Spares result.index other) ∧
      (∀ type, type ≠ entity.type ->
        result.index.heads.heads? type = index.heads.heads? type) ∧
      ∃ chain, index.chain entity = .ok chain ∧
        ∀ id, result.index.arena.get? id ≠ index.arena.get? id ->
          id ∈ chainIds chain ∨ id ∈ index.pool.free ∨ index.pool.numBlocks ≤ id := by
  intro index entity changes
  have hverify : index.verify = .ok () := by decide +kernel
  have hcounts : ((index.update entity changes).map fun result =>
      result.index.pool.numBlocks) = .ok 5 := by
    decide +kernel
  rcases Outcome.map_eq_ok.mp hcounts with ⟨result, hupdate, hcount⟩
  exact ⟨result, hverify, hupdate, hcount, update_spares_others hverify hupdate⟩

end Index

end PostingIndex
