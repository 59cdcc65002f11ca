import PostingIndex.Proofs.BatchExtents
import PostingIndex.Proofs.SettledChains

/-!
# Updates that are made once more

After an update the entity is settled: it is known, its chain is packed, and it
has the counts that were asked for.  To ask for them again changes nothing, not
even the number of a block.  The other updates of a batch touch other chains, so
in the end all entities of the batch are settled at once.

## Contents

Settled entities, the update of one, what the updates of a batch settle, and
updates and batches that are made a second time.
-/

namespace PostingIndex

def EntityUpdate.untouched (entity : Entity) (changes : Changes) : EntityUpdate :=
  { entity, changes := changes.size, written := 0, allocated := 0, freed := 0 }

namespace Index

variable {index : Index} {layout : Layout} {entity : Entity} {changes : Changes}
  {result : Updated}

/-!
## Settled entities
-/

/-- A known entity whose chain is packed and has the counts that changes ask for. -/
structure Settled (index : Index) (entity : Entity) (changes : Changes) : Prop where
  check : index.heads.checkExtent entity = .ok ()
  known : entity.id.toNat < index.heads.extent entity.type
  packed : Crowded index.capacity (chainLengths (index.readLayout entity.slot))
  reflects : Posting.Reflects (chainPostings (index.readLayout entity.slot)) changes.toList

theorem checkExtent_of_update {other : Entity} {asked : Changes}
    (hupdate : index.update other asked = .ok result) (hnext : other.id.toNat + 1 < 2 ^ 32)
    (hcheck : index.heads.checkExtent entity = .ok ()) :
    result.index.heads.checkExtent entity = .ok () := by
  have hextent := extent_of_update hupdate entity.type
  rcases HeadTable.checkExtent_eq_ok.mp hcheck with ⟨hmem, hle⟩
  apply HeadTable.checkExtent_eq_ok.mpr
  refine ⟨types_of_update hupdate ▸ hmem, ?_⟩
  by_cases hgrows : entity.type = other.type ∧
      index.heads.extent entity.type ≤ other.id.toNat
  · rw [if_pos hgrows.left, Nat.max_eq_right (Nat.le_succ_of_le hgrows.right)] at hextent
    have hreported := HeadTable.toNat_reported (hextent.trans_lt hnext)
    have hbefore := HeadTable.le_extent_of_checkExtent hcheck
    rw [UInt32.le_iff_toNat_le, hreported, hextent]
    exact Nat.le_succ_of_le (Nat.le_trans hbefore.right hgrows.right)
  · have hsame : result.index.heads.extent entity.type = index.heads.extent entity.type := by
      rw [hextent]
      split
      · next htype =>
          exact Nat.max_eq_left (Nat.not_le.mp fun hbelow => hgrows ⟨htype, hbelow⟩)
      · rfl
    rw [HeadTable.reported, hsame]
    exact hle

theorem Addressed.readLayout_update (h : index.Addressed layout)
    (hupdate : index.update entity changes = .ok result) :
    ∃ packing, index.Repacks entity changes (layout entity.slot) packing result.index ∧
      result.index.readLayout = relaid layout entity packing ∧
        chainPostings packing.chain =
          Posting.merge (chainPostings (layout entity.slot)) changes.toList := by
  rcases h.update hupdate with ⟨packing, hrepacks, _, hnext, hpostings⟩
  exact ⟨packing, hrepacks, hnext.eq_readLayout.symm, hpostings⟩

namespace Settled

theorem repack_eq (hsettled : index.Settled entity changes) (h : index.Laid layout) :
    index.repack (layout entity.slot) changes =
      .ok {
        chain := layout entity.slot
        writes := []
        allocated := []
        freed := []
        pool := index.pool } := by
  have hpacked := hsettled.packed
  have hreflects := hsettled.reflects
  rw [← h.eq_readLayout] at hpacked hreflects
  exact Packing.ofRuns_of_reflects (h.sound entity.slot) (h.held entity.slot).linked
    (h.nodup_chainIds entity.slot) hpacked (ascendingChanges_toList changes) hreflects _

theorem update (hsettled : index.Settled entity changes) (h : index.Laid layout) :
    index.update entity changes = .ok { index, update := .untouched entity changes } := by
  have hheads : (index.heads.extend entity).put entity (chainHead (layout entity.slot)) =
      index.heads := by
    rw [h.starts]
    exact HeadTable.put_extend_headAt hsettled.known
  have hfound := h.chain_eq (HeadTable.checkExtent_eq_ok.mp hsettled.check).left
  apply update_eq_ok.mpr
  refine ⟨_, _, ⟨hsettled.check, hfound, hsettled.repack_eq h, ?_⟩, rfl⟩
  apply install_eq_ok.mpr
  refine ⟨?_, rfl, rfl, hheads.symm, rfl⟩
  intro id hmem
  cases hmem

theorem update_of_ne (hsettled : index.Settled entity changes) (h : index.Addressed layout)
    {other : Entity} {asked : Changes} (hupdate : index.update other asked = .ok result)
    (hnext : other.id.toNat + 1 < 2 ^ 32) (hne : entity ≠ other) :
    result.index.Settled entity changes := by
  have hslot : entity.slot ≠ other.slot := fun heq => hne (Entity.slot_inj heq)
  have hchain : result.index.readLayout entity.slot = index.readLayout entity.slot := by
    rcases h.readLayout_update hupdate with ⟨packing, _, hlayout, _⟩
    rw [hlayout, relaid_of_ne _ _ hslot, h.eq_readLayout]
  refine ⟨checkExtent_of_update hupdate hnext hsettled.check, ?_, ?_, ?_⟩
  · rw [extent_of_update hupdate]
    have hknown := hsettled.known
    split
    · exact Nat.lt_of_lt_of_le hknown (Nat.le_max_left _ _)
    · exact hknown
  · rw [hchain, capacity_of_update hupdate]
    exact hsettled.packed
  · rw [hchain]
    exact hsettled.reflects

end Settled

theorem Laid.runUpdates_of_settled {run : BatchRun} {entries : List (Entity × Changes)}
    (h : run.index.Laid layout)
    (hsettled : ∀ entry ∈ entries, run.index.Settled entry.1 entry.2) :
    Index.runUpdates run entries =
      { run with
        updates := (entries.map fun entry => .untouched entry.1 entry.2).reverse ++
          run.updates } := by
  induction entries generalizing run with
  | nil =>
      rfl
  | cons entry rest ih =>
      rcases entry with ⟨next, asked⟩
      have hupdate := (hsettled _ List.mem_cons_self).update h
      rw [Index.runUpdates, hupdate]
      let after : BatchRun :=
        { run with updates := .untouched next asked :: run.updates }
      have hafter : after.index.Laid layout := h
      have hrest := ih hafter fun entry hmem => hsettled entry (List.mem_cons_of_mem _ hmem)
      rw [List.map_cons, List.reverse_cons, List.append_assoc]
      exact hrest

/-- What a batch that succeeds leaves: all that it asked for is settled. -/
structure SettledBy (index : Index) (asked : EntityChanges) : Prop where
  next : ∀ entity ∈ asked.keys, entity.id.toNat + 1 < 2 ^ 32
  settled : ∀ entry ∈ asked.toList, index.Settled entry.1 entry.2

namespace SettledBy

variable {asked : EntityChanges}

theorem follows (hsettled : index.SettledBy asked) :
    ∀ entity ∈ asked.keys,
      Extents.Follows index.heads.types index.extents (· ∈ asked.keys) entity := by
  intro entity hmem
  have hkey := hmem
  rw [← Std.TreeMap.map_fst_toList_eq_keys] at hmem
  rcases List.mem_map.mp hmem with ⟨entry, hentry, rfl⟩
  rcases HeadTable.checkExtent_eq_ok.mp (hsettled.settled entry hentry).check with ⟨htype, hle⟩
  refine ⟨htype, ?_⟩
  -- Only its own number can lie between the extent and a known entity.
  intro id hid hbelow
  have hsame : id = entry.1.id :=
    UInt32.le_antisymm hbelow (UInt32.le_trans hle (UInt32.le_iff_toNat_le.mpr hid))
  rw [hsame]
  exact hkey

theorem prepare {batch : List GameChange} (hsettled : index.SettledBy asked)
    (h : index.Laid layout) (hcollect : EntityChanges.ofBatch batch = .ok asked) :
    index.prepare batch = .ok asked :=
  h.prepare_eq_ok.mpr ⟨hcollect, _,
    Extents.foldlM_eq_ok_of_follows (ordered_keys asked) hsettled.next hsettled.follows⟩

theorem apply {batch : List GameChange} (hsettled : index.SettledBy asked)
    (h : index.Laid layout) (hcollect : EntityChanges.ofBatch batch = .ok asked) :
    index.apply batch =
      { index
        updates := (asked.toList.map fun entry => .untouched entry.1 entry.2).reverse
        stop := none } := by
  let start : BatchRun := { index }
  have hstart : start.index.Laid layout := h
  rw [apply_of_prepare_ok (hsettled.prepare h hcollect),
    hstart.runUpdates_of_settled hsettled.settled, List.append_nil]

end SettledBy

end Index

end PostingIndex
