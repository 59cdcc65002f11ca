import PostingIndex.Proofs.BatchExtents
import PostingIndex.Proofs.PostingCounts

/-!
# What a batch makes of the counts

The posting list of an entity is determined by the count of each game in it.  An
update settles the counts that it asks for and leaves all others alone, so a
batch settles for every entity and game the last count that its changes ask for.
This is what its changes would do one after the other.

## Contents

The requests of a row of changes, the counts of an index after an update and
after a batch, and what a batch amounts to.
-/

namespace PostingIndex

open GameChange

/-!
## Requests in a row
-/

namespace GameChange

theorem foldl_request? (batch : List GameChange) (last : Option UInt32) (entity : Entity)
    (game : GameId) :
    batch.foldl (fun last change => (change.request? entity game).or last) last =
      (lastRequest? batch entity game).or last := by
  unfold lastRequest?
  induction batch generalizing last with
  | nil =>
      rfl
  | cons change rest ih =>
      rw [List.foldl_cons, List.foldl_cons, ih, ih ((change.request? entity game).or none),
        Option.or_none, Option.or_assoc]

/-- Settling the last request of a batch settles its requests one after the other. -/
theorem settle_lastRequest? (batch : List GameChange) (before : Option UInt32)
    (entity : Entity) (game : GameId) :
    settle before (lastRequest? batch entity game) =
      batch.foldl (fun before change => settle before (change.request? entity game))
        before := by
  induction batch generalizing before with
  | nil =>
      rfl
  | cons change rest ih =>
      rw [List.foldl_cons, ← ih, settle_settle, lastRequest?, List.foldl_cons, foldl_request?,
        Option.or_none]

end GameChange

namespace Index

variable {index : Index} {layout : Layout} {batch : List GameChange}

/-!
## The counts of an index
-/

def count? (index : Index) (entity : Entity) (game : GameId) : Option UInt32 :=
  Posting.countIn? (chainPostings (index.readLayout entity.slot)) game

theorem Laid.count?_eq (h : index.Laid layout) (entity : Entity) (game : GameId) :
    index.count? entity game =
      Posting.countIn? (chainPostings (layout entity.slot)) game := by
  rw [count?, ← h.eq_readLayout]

theorem postings_eq_of_count? (hverify : index.verify = .ok ()) {entity : Entity}
    (hmem : entity.type ∈ index.heads.types) {postings : List Posting}
    (hordered : Posting.Ordered postings)
    (h : ∀ game, index.count? entity game = Posting.countIn? postings game) :
    index.postings entity = .ok postings := by
  have hlaid := verify_eq_ok.mp hverify
  rw [hlaid.postings_eq hmem, (hlaid.sound entity.slot).ordered.ext_countIn? hordered h]

theorem postings_congr {left right : Index} (hleft : left.verify = .ok ())
    (hright : right.verify = .ok ()) (htypes : left.heads.types = right.heads.types)
    {entity : Entity} (h : ∀ game, left.count? entity game = right.count? entity game) :
    left.postings entity = right.postings entity := by
  by_cases hmem : entity.type ∈ right.heads.types
  · have hlaid := verify_eq_ok.mp hright
    rw [hlaid.postings_eq hmem]
    exact postings_eq_of_count? hleft (htypes ▸ hmem) (hlaid.sound entity.slot).ordered h
  · rw [postings, postings, right.chain_of_not_mem hmem, left.chain_of_not_mem (htypes ▸ hmem)]

theorem Addressed.count?_update (h : index.Addressed layout) {entity : Entity}
    {changes : Changes} {result : Updated} (hupdate : index.update entity changes = .ok result)
    (other : Entity) (game : GameId) :
    result.index.count? other game =
      if other = entity then settle (index.count? other game) changes[game]?
      else index.count? other game := by
  rcases h.update hupdate with ⟨packing, _, _, hnext, hpostings⟩
  rw [hnext.count?_eq, h.count?_eq]
  split
  · next hsame =>
      subst hsame
      rw [relaid_self, hpostings, Posting.countIn?_merge (h.sound _).ordered]
  · next hne =>
      rw [relaid_of_ne _ _ fun hslot => hne (Entity.slot_inj hslot)]

theorem Addressed.count?_runUpdates {run : BatchRun} {entries : List (Entity × Changes)}
    (h : run.index.Addressed layout) (hdistinct : (entries.map Prod.fst).Nodup)
    (hstop : (Index.runUpdates run entries).stop = none) (entity : Entity) (game : GameId) :
    (∀ changes, (entity, changes) ∈ entries ->
      (Index.runUpdates run entries).index.count? entity game =
        settle (run.index.count? entity game) changes[game]?) ∧
    (entity ∉ entries.map Prod.fst ->
      (Index.runUpdates run entries).index.count? entity game =
        run.index.count? entity game) := by
  induction entries generalizing run layout with
  | nil =>
      constructor
      · intro changes hmem
        cases hmem
      · intro _
        rfl
  | cons entry rest ih =>
      rcases entry with ⟨first, requests⟩
      rcases List.nodup_cons.mp hdistinct with ⟨hnew, hdistinct⟩
      rw [Index.runUpdates] at hstop ⊢
      cases hupdate : run.index.update first requests with
      | error error =>
          rw [hupdate] at hstop
          cases hstop
      | ok result =>
          rw [hupdate] at hstop
          rcases h.update hupdate with ⟨packing, _, _, hnext, _⟩
          let next : BatchRun :=
            { run with index := result.index, updates := result.update :: run.updates }
          have haddressed : next.index.Addressed _ := hnext
          have hrest := ih haddressed hdistinct hstop
          have hstep := h.count?_update hupdate entity game
          constructor
          · intro changes hmem
            rcases List.mem_cons.mp hmem with heq | hmem
            · -- The entity was updated just now and is not updated again.
              cases heq
              rw [if_pos rfl] at hstep
              exact (hrest.right hnew).trans hstep
            · have hin : entity ∈ rest.map Prod.fst := List.mem_map.mpr ⟨_, hmem, rfl⟩
              have hne : entity ≠ first := fun heq => hnew (heq ▸ hin)
              rw [if_neg hne] at hstep
              rw [← hstep]
              exact hrest.left changes hmem
          · intro hnot
            rw [List.map_cons, List.mem_cons, not_or] at hnot
            rw [if_neg hnot.left] at hstep
            exact (hrest.right hnot.right).trans hstep

/-- A batch that succeeds on an audited index settles the counts that it asks for. -/
theorem Addressed.count?_apply (h : index.Addressed layout)
    (hstop : (index.apply batch).stop = none) (entity : Entity) (game : GameId) :
    (index.apply batch).index.count? entity game =
      settle (index.count? entity game) (lastRequest? batch entity game) := by
  cases hprepare : index.prepare batch with
  | error error =>
      rw [apply_of_prepare_error hprepare] at hstop
      cases hstop
  | ok changes =>
      rw [apply_of_prepare_ok hprepare] at hstop ⊢
      have hcollect := (Index.prepare_eq_ok.mp hprepare).left
      have hdistinct := nodup_keys changes
      rw [← Std.TreeMap.map_fst_toList_eq_keys] at hdistinct
      let start : BatchRun := { index }
      have hstart : start.index.Addressed layout := h
      have hcounts := hstart.count?_runUpdates hdistinct hstop entity game
      rw [← EntityChanges.asked?_ofBatch hcollect, EntityChanges.asked?]
      cases hget : changes[entity]? with
      | some asked =>
          rw [Std.TreeMap.getD_eq_getD_getElem?, hget]
          exact hcounts.left asked (Std.TreeMap.mem_toList_iff_getElem?_eq_some.mpr hget)
      | none =>
          have hnot : entity ∉ changes.toList.map Prod.fst := by
            rw [Std.TreeMap.map_fst_toList_eq_keys, Std.TreeMap.mem_keys,
              Std.TreeMap.mem_iff_isSome_getElem?, hget]
            simp
          rw [Std.TreeMap.getD_eq_getD_getElem?, hget]
          exact hcounts.right hnot

/-!
## What a batch amounts to
-/

/--
An index has taken in a batch, in whatever way: its catalogues hold the touched
entities and have not grown beyond that, and its counts are settled.
-/
structure Absorbs (index : Index) (batch : List GameChange) (last : Index) : Prop where
  addressed : ∃ layout, last.Addressed layout
  types : last.heads.types = index.heads.types
  extent : ∀ type bound, last.heads.extent type ≤ bound ↔
    index.heads.extent type ≤ bound ∧
      ∀ entity, Touched batch entity -> entity.type = type -> entity.id.toNat < bound
  counts : ∀ entity game, last.count? entity game =
    settle (index.count? entity game) (lastRequest? batch entity game)

theorem result_eq_ok {run : BatchRun} {last : Index} :
    run.result = .ok last ↔ run.stop = none ∧ run.index = last := by
  unfold BatchRun.result
  cases run.stop with
  | none =>
      simp
  | some error =>
      simp

theorem Addressed.absorbs_apply (h : index.Addressed layout) {last : Index}
    (hlast : (index.apply batch).result = .ok last) : index.Absorbs batch last := by
  rcases result_eq_ok.mp hlast with ⟨hstop, hindex⟩
  subst hindex
  rcases allMade_apply hstop with ⟨changes, hcollect, hmade⟩
  constructor
  · exact updatesKeep_addressed.apply ⟨layout, h⟩ batch
  · rw [hmade.calls, types_calls]
  · intro type bound
    rw [hmade.extent, Std.TreeMap.map_fst_toList_eq_keys, Extents.foldl_introduce_le_iff]
    simp only [EntityChanges.mem_keys_ofBatch hcollect]
  · exact h.count?_apply hstop

namespace Absorbs

variable {left right : Index}

theorem extent_eq (h : index.Absorbs batch left)
    (hnext : ∀ entity, Touched batch entity -> entity.id.toNat + 1 < 2 ^ 32)
    {type : EntityType} (hlong : 2 ^ 32 ≤ index.heads.extent type) :
    left.heads.extent type = index.heads.extent type := by
  apply Nat.le_antisymm
  · apply (h.extent type _).mpr
    refine ⟨Nat.le_refl _, ?_⟩
    intro entity htouched _
    have hlt := hnext entity htouched
    omega
  · exact ((h.extent type _).mp (Nat.le_refl _)).left

theorem extent_lt (h : index.Absorbs batch left)
    (hnext : ∀ entity, Touched batch entity -> entity.id.toNat + 1 < 2 ^ 32)
    {type : EntityType} (hshort : index.heads.extent type < 2 ^ 32) :
    left.heads.extent type < 2 ^ 32 := by
  apply Nat.lt_of_le_pred (by decide)
  apply (h.extent type _).mpr
  refine ⟨Nat.le_pred_of_lt hshort, ?_⟩
  intro entity htouched _
  exact Nat.lt_pred_of_succ_lt (hnext entity htouched)

theorem known_eq (hleft : index.Absorbs batch left) (hright : index.Absorbs batch right)
    (type : EntityType) : left.known type = right.known type := by
  have hextent : left.heads.extent type = right.heads.extent type := by
    apply eq_of_forall_ge_iff
    intro bound
    rw [hleft.extent, hright.extent]
  rw [Index.known_eq, Index.known_eq, hleft.types, hright.types, HeadTable.reported,
    HeadTable.reported, hextent]

theorem postings_eq (hleft : index.Absorbs batch left) (hright : index.Absorbs batch right)
    (entity : Entity) : left.postings entity = right.postings entity := by
  rcases hleft.addressed with ⟨_, haddressed⟩
  rcases hright.addressed with ⟨_, haddressed'⟩
  apply postings_congr haddressed.verify haddressed'.verify
    (hleft.types.trans hright.types.symm)
  intro game
  rw [hleft.counts, hright.counts]

end Absorbs

end Index

end PostingIndex
