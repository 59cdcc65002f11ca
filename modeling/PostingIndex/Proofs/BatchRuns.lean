import PostingIndex.Proofs.BatchRequests
import PostingIndex.Proofs.Introduction
import PostingIndex.Proofs.Steps

/-!
# Batches after their checks

The checks of a batch look at every entity before the first update.  They are
enough if the chains of the touched entities keep apart: then no update takes
away what was checked for a later one, and only an abort can still cut the batch
short.  Two entities that share a block defeat them.

## Contents

Turns that come in a row, updates that are all made, entities whose chains keep
apart, what the updates of a batch still find as it was checked, and batches that
end early.
-/

namespace PostingIndex

open GameChange

namespace Extents

variable {types : List EntityType} {extents : Extents}

/-- The turn of each entity of a row comes once those before it were introduced. -/
def TurnsCome (types : List EntityType) (extents : Extents) : List Entity -> Prop
  | [] => True
  | entity :: rest =>
      (entity.type ∈ types ∧ entity.id.toNat ≤ extents entity.type % 2 ^ 32) ∧
        TurnsCome types (extents.introduce entity) rest

theorem introduce_of_le {entity : Entity} {type : EntityType}
    (hlast : entity.id.toNat + 1 < 2 ^ 32) (hlong : 2 ^ 32 ≤ extents type) :
    extents.introduce entity type = extents type := by
  unfold introduce
  by_cases hsame : type = entity.type
  · subst hsame
    rw [Function.update_self]
    exact Nat.max_eq_left (Nat.le_of_lt (Nat.lt_of_lt_of_le hlast hlong))
  · rw [Function.update_of_ne hsame]

theorem turnsCome_of_foldlM_accept {seen after : Extents} {row : List Entity}
    (h : row.foldlM (accept types) seen = .ok after)
    (hseen : ∀ entity ∈ row,
      (extents entity.type < 2 ^ 32 ∧ seen entity.type = extents entity.type) ∨
        (2 ^ 32 ≤ extents entity.type ∧
          entity.id.toNat ≤ extents entity.type % 2 ^ 32)) :
    TurnsCome types extents row := by
  induction row generalizing extents seen with
  | nil =>
      trivial
  | cons first rest ih =>
      rw [List.foldlM_cons, Outcome.bind_eq_ok] at h
      rcases h with ⟨between, hfirst, hrest⟩
      rcases accept_eq_ok.mp hfirst with ⟨⟨hmem, hle⟩, hlast, hbetween⟩
      subst hbetween
      refine ⟨⟨hmem, ?_⟩, ih hrest ?_⟩
      · rcases hseen first List.mem_cons_self with ⟨hshort, heq⟩ | ⟨_, hsmall⟩
        · rwa [Nat.mod_eq_of_lt hshort, ← heq]
        · exact hsmall
      · intro entity hentity
        rcases hseen entity (List.mem_cons_of_mem _ hentity) with ⟨hshort, heq⟩ | ⟨hlong, hsmall⟩
        · left
          unfold introduce
          by_cases hsame : entity.type = first.type
          · rw [hsame] at hshort heq ⊢
            rw [Function.update_self, Function.update_self, heq]
            exact ⟨Nat.max_lt.mpr ⟨hshort, hlast⟩, rfl⟩
          · rw [Function.update_of_ne hsame, Function.update_of_ne hsame]
            exact ⟨hshort, heq⟩
        · rw [introduce_of_le hlast hlong]
          exact Or.inr ⟨hlong, hsmall⟩

theorem TurnsCome.small {row : List Entity} (h : TurnsCome types extents row)
    (hlast : ∀ entity ∈ row, entity.id.toNat + 1 < 2 ^ 32) :
    ∀ entity ∈ row, 2 ^ 32 ≤ extents entity.type ->
      entity.id.toNat ≤ extents entity.type % 2 ^ 32 := by
  induction row generalizing extents with
  | nil =>
      intro entity hmem
      cases hmem
  | cons first rest ih =>
      rcases List.forall_mem_cons.mp hlast with ⟨hfirst, hrest⟩
      intro entity hmem hlong
      cases hmem with
      | head =>
          exact h.left.right
      | tail _ hmem =>
          have hsame := introduce_of_le hfirst hlong
          rw [← hsame] at hlong ⊢
          exact ih h.right hrest entity hmem hlong

end Extents

namespace Index

variable {index : Index} {layout : Layout} {batch : List GameChange}
  {changes : EntityChanges}

/-!
## Updates one after the other
-/

theorem checkExtent_eq_ok_iff {entity : Entity} :
    index.heads.checkExtent entity = .ok () ↔
      entity.type ∈ index.heads.types ∧
        entity.id.toNat ≤ index.heads.extent entity.type % 2 ^ 32 := by
  rw [HeadTable.checkExtent_eq_ok, UInt32.le_iff_toNat_le, HeadTable.reported,
    UInt32.toNat_ofNat']

theorem introduce_of_update {entity : Entity} {changes : Changes} {result : Updated}
    (h : index.update entity changes = .ok result) :
    result.index.heads.extent = Extents.introduce index.heads.extent entity := by
  funext type
  rw [extent_of_update h, Extents.introduce]
  by_cases hsame : type = entity.type
  · rw [if_pos hsame, hsame, Function.update_self]
  · rw [if_neg hsame, Function.update_of_ne hsame]

@[simp]
theorem types_call (index : Index) (request : Call) :
    (index.call request).heads.types = index.heads.types := by
  unfold call
  cases hupdate : index.update request.entity request.changes with
  | error error =>
      rfl
  | ok result =>
      exact types_of_update hupdate

@[simp]
theorem types_calls (index : Index) (requests : List Call) :
    (index.calls requests).heads.types = index.heads.types := by
  induction requests generalizing index with
  | nil =>
      rfl
  | cons request rest ih =>
      rw [calls, List.foldl_cons]
      exact (ih _).trans (types_call index request)

/-- What is known of a row of updates that were all made. -/
structure AllMade (index : Index) (entries : List (Entity × Changes)) (last : Index) :
    Prop where
  calls : last = index.calls (entries.map fun entry =>
    { entity := entry.1, changes := entry.2 })
  extent : last.heads.extent =
    (entries.map Prod.fst).foldl Extents.introduce index.heads.extent
  turns : Extents.TurnsCome index.heads.types index.heads.extent (entries.map Prod.fst)

theorem allMade_of_stop_eq_none {run : BatchRun} {entries : List (Entity × Changes)}
    (hstop : (runUpdates run entries).stop = none) :
    run.index.AllMade entries (runUpdates run entries).index := by
  induction entries generalizing run with
  | nil =>
      exact ⟨rfl, rfl, trivial⟩
  | cons entry rest ih =>
      rcases entry with ⟨entity, changes⟩
      rw [runUpdates] at hstop ⊢
      cases hupdate : run.index.update entity changes with
      | error error =>
          rw [hupdate] at hstop
          cases hstop
      | ok result =>
          rw [hupdate] at hstop
          have hrest := ih hstop
          have hcall : run.index.call { entity, changes } = result.index := by
            rw [call, hupdate]
          rcases update_eq_ok.mp hupdate with ⟨_, _, hrepacks, _⟩
          constructor
          · rw [List.map_cons, Index.calls, List.foldl_cons, hcall]
            exact hrest.calls
          · rw [List.map_cons, List.foldl_cons, ← introduce_of_update hupdate]
            exact hrest.extent
          · refine ⟨checkExtent_eq_ok_iff.mp hrepacks.check, ?_⟩
            rw [← introduce_of_update hupdate, ← types_of_update hupdate]
            exact hrest.turns

/-!
## Entities that keep apart
-/

/--
The chains that can be read of some entities share no number, and all their numbers
were handed out and are not free.  Nor is the reserved number free.
-/
structure KeepsApart (index : Index) (among : Entity -> Prop) : Prop where
  unreserved : Link.noBlock ∉ index.pool.free
  separate : ∀ left right, among left -> among right ->
    ∀ id ∈ chainIds (index.readLayout left.slot),
      id ∈ chainIds (index.readLayout right.slot) -> left = right
  inUse : ∀ entity, among entity ->
    ∀ id ∈ chainIds (index.readLayout entity.slot), id ∉ index.pool.free
  below : ∀ entity, among entity ->
    ∀ id ∈ chainIds (index.readLayout entity.slot), id < index.pool.numBlocks

theorem keepsApart_of_verify (h : index.verify = .ok ()) (among : Entity -> Prop) :
    index.KeepsApart among := by
  have hlaid := verify_eq_ok.mp h
  constructor
  · intro hfree
    have hlt := UInt32.lt_iff_toNat_lt.mp (hlaid.freeWithin _ hfree)
    exact absurd index.pool.numBlocks.toNat_lt (Nat.not_lt.mpr hlt)
  · intro left right _ _ id hleft hright
    exact Entity.slot_inj (hlaid.separate _ _ id hleft hright)
  · intro entity _
    exact hlaid.inUse entity.slot
  · intro entity _ id hmem
    exact hlaid.lt_numBlocks hmem

theorem KeepsApart.owns {among : Entity -> Prop} {entity : Entity}
    {chain : List StoredBlock} (h : index.KeepsApart among)
    (hentity : among entity) (hchain : index.chain entity = .ok chain)
    (hmem : entity.type ∈ index.heads.types) :
    index.Owns entity.slot (index.readLayout entity.slot) := by
  have hread : (index.walkFrom (index.heads.headAt entity.slot)).result = .ok chain := by
    simp only [Index.chain, HeadTable.headOf_of_mem hmem] at hchain
    exact hchain
  have hlayout : index.readLayout entity.slot = chain := readChain_eq_of_ok hread
  constructor
  · rw [hlayout]
    exact hread
  · exact h.inUse entity hentity
  · exact h.below entity hentity

/--
What the updates of a batch still find as it was checked: the chains of the
entities to come, apart from each other, and the turn of each of them.
-/
structure Ready (index : Index) (layout : Layout) (entities : List Entity) : Prop where
  unreserved : ∀ id ∈ index.pool.free, id < Link.noBlock
  distinct : entities.Nodup
  owns : ∀ entity ∈ entities, index.Owns entity.slot (layout entity.slot)
  apart : ∀ left ∈ entities, ∀ right ∈ entities, ∀ id ∈ chainIds (layout left.slot),
    id ∈ chainIds (layout right.slot) -> left = right
  turns : Extents.TurnsCome index.heads.types index.heads.extent entities

namespace Ready

variable {entity : Entity} {rest : List Entity} {changes : Changes} {packing : Packing}

theorem owns_head (h : index.Ready layout (entity :: rest)) :
    index.Owns entity.slot (layout entity.slot) :=
  h.owns entity List.mem_cons_self

theorem chain_eq (h : index.Ready layout (entity :: rest)) :
    index.chain entity = .ok (layout entity.slot) :=
  h.owns_head.chain_eq h.turns.left.left

theorem update (h : index.Ready layout (entity :: rest)) {result : Updated}
    (hupdate : index.update entity changes = .ok result) :
    result.index.Ready layout rest := by
  rcases update_eq_ok.mp hupdate with ⟨chain, packing, hrepacks, _⟩
  have hchain : layout entity.slot = chain :=
    Except.ok.inj (h.chain_eq.symm.trans hrepacks.found)
  subst hchain
  have hbound : packing.pool.numBlocks ≤ Link.noBlock := Link.le_noBlock _
  have hcount := count_le_count_install hrepacks.installed
    (h.owns_head.lt_bound_of_mem_writes h.unreserved hrepacks.packed hbound)
  rcases List.nodup_cons.mp h.distinct with ⟨hnew, hdistinct⟩
  constructor
  · exact h.owns_head.free_lt_bound h.unreserved hrepacks.packed hrepacks.installed hbound
  · exact hdistinct
  · intro other hother
    have hne : other ≠ entity := fun heq => hnew (heq ▸ hother)
    have hapart : ∀ id ∈ chainIds (layout other.slot), id ∉ chainIds (layout entity.slot) :=
      fun id hid hentity => hne (h.apart other (List.mem_cons_of_mem _ hother) entity
        List.mem_cons_self id hid hentity)
    exact (h.owns other (List.mem_cons_of_mem _ hother)).install hrepacks.check
      hrepacks.packed hrepacks.installed hcount (fun hslot => hne (Entity.slot_inj hslot))
      hapart
  · intro left hleft right hright
    exact h.apart left (List.mem_cons_of_mem _ hleft) right (List.mem_cons_of_mem _ hright)
  · rw [types_of_update hupdate, introduce_of_update hupdate]
    exact h.turns.right

theorem freeWithin_update (h : index.Ready layout (entity :: rest))
    (hwithin : index.pool.FreeWithin) {result : Updated}
    (hupdate : index.update entity changes = .ok result) : result.index.pool.FreeWithin := by
  rcases update_eq_ok.mp hupdate with ⟨chain, packing, hrepacks, _⟩
  have hchain : layout entity.slot = chain :=
    Except.ok.inj (h.chain_eq.symm.trans hrepacks.found)
  subst hchain
  exact h.owns_head.freeWithin_install hwithin hrepacks.packed hrepacks.installed

theorem not_returned_of_update (h : index.Ready layout (entity :: rest)) {error : IndexError}
    (hupdate : index.update entity changes = .error error) : ¬ error.Returned := by
  intro hreturned
  rcases checks_of_update_eq_error hupdate hreturned with hcheck | ⟨_, hchain⟩
  · rw [checkExtent_eq_ok_iff.mpr h.turns.left] at hcheck
    cases hcheck
  · rw [h.chain_eq] at hchain
    cases hchain

theorem not_returned_of_runUpdates {run : BatchRun} {entries : List (Entity × Changes)}
    (h : run.index.Ready layout (entries.map Prod.fst)) (hrun : run.stop = none)
    {error : IndexError} (hstop : (Index.runUpdates run entries).stop = some error) :
    ¬ error.Returned := by
  induction entries generalizing run with
  | nil =>
      rw [Index.runUpdates, hrun] at hstop
      cases hstop
  | cons entry rest ih =>
      rcases entry with ⟨entity, changes⟩
      rw [Index.runUpdates] at hstop
      cases hupdate : run.index.update entity changes with
      | error failure =>
          rw [hupdate] at hstop
          cases hstop
          exact h.not_returned_of_update hupdate
      | ok result =>
          rw [hupdate] at hstop
          let next : BatchRun :=
            { run with index := result.index, updates := result.update :: run.updates }
          have hnext : next.index.Ready layout (rest.map Prod.fst) := h.update hupdate
          exact ih hnext hrun hstop

theorem stop_runUpdates {run : BatchRun} {entries : List (Entity × Changes)}
    (h : run.index.Ready layout (entries.map Prod.fst))
    (hwithin : run.index.pool.FreeWithin) (hrun : run.stop = none)
    (hlast : run.index.NumbersLast
      (entries.map fun entry => { entity := entry.1, changes := entry.2 })) :
    (Index.runUpdates run entries).stop = none := by
  induction entries generalizing run with
  | nil =>
      exact hrun
  | cons entry rest ih =>
      rcases entry with ⟨entity, changes⟩
      rcases hlast with ⟨hroom, hlast⟩
      rw [Index.runUpdates]
      cases hupdate : run.index.update entity changes with
      | error error =>
          have hcheck := (h.owns_head.update_eq_error_of_hasRoom hwithin hroom).mp hupdate
          rw [checkExtent_eq_ok_iff.mpr h.turns.left] at hcheck
          cases hcheck
      | ok result =>
          let next : BatchRun :=
            { run with index := result.index, updates := result.update :: run.updates }
          have hnext : next.index.Ready layout (rest.map Prod.fst) := h.update hupdate
          have hkeeps : next.index.pool.FreeWithin := h.freeWithin_update hwithin hupdate
          have hcall : run.index.call { entity, changes } = result.index := by
            rw [call, hupdate]
          rw [hcall] at hlast
          exact ih hnext hkeeps hrun hlast

end Ready

theorem Laid.ready (h : index.Laid layout) {entities : List Entity}
    (hdistinct : entities.Nodup)
    (hturns : Extents.TurnsCome index.heads.types index.heads.extent entities) :
    index.Ready layout entities where
  unreserved := fun id hmem => UInt32.lt_of_lt_of_le (h.freeWithin id hmem) (Link.le_noBlock _)
  distinct := hdistinct
  owns := fun entity _ => h.owns entity.slot
  apart := fun _ _ _ _ id hleft hright => Entity.slot_inj (h.separate _ _ id hleft hright)
  turns := hturns

/-!
## Batches that end early
-/

theorem ordered_keys (changes : EntityChanges) :
    changes.keys.Pairwise fun left right => Entity.order left right = .lt :=
  Std.TreeMap.ordered_keys

theorem nodup_keys (changes : EntityChanges) : changes.keys.Nodup := by
  apply (ordered_keys changes).imp
  intro left right hlt heq
  rw [Entity.order_eq_eq.mpr heq] at hlt
  cases hlt

theorem exists_chain_of_checkChains {entities : List Entity}
    (h : index.checkChains entities = .ok ()) :
    ∀ entity ∈ entities, ∃ chain, index.chain entity = .ok chain := by
  intro entity hmem
  have hstep := Outcome.forM_eq_ok.mp h entity hmem
  rw [Outcome.bind_eq_ok] at hstep
  rcases hstep with ⟨length, hlength, _⟩
  rw [chainLength, Outcome.map_eq_ok] at hlength
  rcases hlength with ⟨chain, hchain, _⟩
  exact ⟨chain, hchain⟩

theorem exists_foldlM_accept {entities : List Entity}
    (hsorted : entities.Pairwise fun left right => Entity.order left right = .lt)
    (h : index.checkExtents entities = .ok ()) :
    ∃ last, entities.foldlM (Extents.accept index.heads.types) index.extents = .ok last := by
  rw [checkExtents_eq hsorted, Outcome.map_eq_ok] at h
  rcases h with ⟨last, hlast, _⟩
  exact ⟨last, hlast⟩

theorem Counted.turnsCome (hcounted : index.Counted) {entities : List Entity} {last : Extents}
    (h : entities.foldlM (Extents.accept index.heads.types) index.extents = .ok last) :
    Extents.TurnsCome index.heads.types index.heads.extent entities :=
  Extents.turnsCome_of_foldlM_accept h fun entity _ =>
    Or.inl ⟨hcounted entity.type, congrFun hcounted.extents_eq entity.type⟩

theorem ready_of_prepare (hcounted : index.Counted) (hapart : index.KeepsApart (Touched batch))
    (hprepare : index.prepare batch = .ok changes) :
    index.Ready index.readLayout changes.keys := by
  rcases prepare_eq_ok.mp hprepare with ⟨hcollect, hextents, hchains⟩
  rcases exists_foldlM_accept (ordered_keys changes) hextents with ⟨last, hlast⟩
  have hturns := hcounted.turnsCome hlast
  have hfollows := Extents.follows_of_foldlM_eq_ok hlast
  have htouched : ∀ entity ∈ changes.keys, Touched batch entity :=
    fun entity hmem => (EntityChanges.mem_keys_ofBatch hcollect).mp hmem
  constructor
  · intro id hmem
    exact Link.lt_noBlock_iff.mpr fun heq => hapart.unreserved (heq ▸ hmem)
  · exact nodup_keys _
  · intro entity hmem
    rcases exists_chain_of_checkChains hchains entity hmem with ⟨chain, hchain⟩
    exact hapart.owns (htouched entity hmem) hchain (hfollows entity hmem).left
  · intro left hleft right hright
    exact hapart.separate left right (htouched left hleft) (htouched right hright)
  · exact hturns

theorem keepsApart_touched_iff :
    index.KeepsApart (Touched batch) ↔
      Link.noBlock ∉ index.pool.free ∧
      (∀ left ∈ named batch, ∀ right ∈ named batch, Touched batch left ->
        Touched batch right -> ∀ id ∈ chainIds (index.readLayout left.slot),
          id ∈ chainIds (index.readLayout right.slot) -> left = right) ∧
      ∀ entity ∈ named batch, Touched batch entity ->
        ∀ id ∈ chainIds (index.readLayout entity.slot),
          id ∉ index.pool.free ∧ id < index.pool.numBlocks := by
  constructor
  · intro h
    refine ⟨h.unreserved, ?_, ?_⟩
    · intro left _ right _ hleft hright
      exact h.separate left right hleft hright
    · intro entity _ hentity id hid
      exact ⟨h.inUse entity hentity id hid, h.below entity hentity id hid⟩
  · rintro ⟨hunreserved, hseparate, hnumbers⟩
    constructor
    · exact hunreserved
    · intro left right hleft hright
      exact hseparate left (mem_named_of_touched hleft) right (mem_named_of_touched hright)
        hleft hright
    · intro entity hentity id hid
      exact (hnumbers entity (mem_named_of_touched hentity) hentity id hid).left
    · intro entity hentity id hid
      exact (hnumbers entity (mem_named_of_touched hentity) hentity id hid).right

-- Numbers are looked up in the chains; trying all numbers of 32 bits would not end.
instance decidableKeepsApart (index : Index) (batch : List GameChange) :
    Decidable (index.KeepsApart (Touched batch)) :=
  let _ (left right : Entity) : Decidable (∀ id ∈ chainIds (index.readLayout left.slot),
      id ∈ chainIds (index.readLayout right.slot) -> left = right) :=
    List.decidableBAll _ _
  let _ (entity : Entity) : Decidable (∀ id ∈ chainIds (index.readLayout entity.slot),
      id ∉ index.pool.free ∧ id < index.pool.numBlocks) :=
    List.decidableBAll _ _
  decidable_of_iff' _ keepsApart_touched_iff

/--
A batch whose entities have chains that keep apart changes everything or
nothing, whatever is wrong with the rest of the index.
-/
theorem apply_all_or_nothing (hcounted : index.Counted)
    (hapart : index.KeepsApart (Touched batch)) {error : IndexError}
    (hstop : (index.apply batch).stop = some error) (hreturned : error.Returned) :
    (index.apply batch).index = index ∧ index.prepare batch = .error error := by
  cases hprepare : index.prepare batch with
  | ok changes =>
      rw [apply_of_prepare_ok hprepare] at hstop
      have hready := ready_of_prepare hcounted hapart hprepare
      rw [← Std.TreeMap.map_fst_toList_eq_keys] at hready
      let start : BatchRun := { index }
      have hstart : start.index.Ready _ _ := hready
      exact absurd hreturned (hstart.not_returned_of_runUpdates rfl hstop)
  | error failure =>
      rw [apply_of_prepare_error hprepare] at hstop ⊢
      cases hstop
      exact ⟨rfl, rfl⟩

/-- The chain of the second player runs in a circle, and the first one keeps his game. -/
theorem apply_all_or_nothing_circle :
    let index : Index :=
      { capacity := 1
        pool := { numBlocks := 2 }
        heads := { rows := [{ type := .player, heads := #[some 0, some 1] }] }
        arena := { blocks := #[{ postings := [{ game := 1, count := 1 }] },
          { postings := [{ game := 1, count := 1 }], next := some 1 }] }
        usable := by decide }
    let batch : List GameChange :=
      [{ game := 1, old := some { white := some 0, black := some 1 } }]
    let error : IndexError := .corruptChain 1 (.outOfOrder 1 1)
    index.Counted ∧ index.KeepsApart (Touched batch) ∧
      (index.apply batch).stop = some error ∧ error.Returned ∧
        (index.apply batch).index = index ∧ index.prepare batch = .error error := by
  intro index batch error
  have hcounted : index.Counted := by
    intro type
    cases type <;> decide
  have hapart : index.KeepsApart (Touched batch) := by decide +kernel
  have hstop : (index.apply batch).stop = some error := by decide +kernel
  exact ⟨hcounted, hapart, hstop, trivial,
    apply_all_or_nothing hcounted hapart hstop trivial⟩

/--
Two players share a block.  The update of the first one empties it, and the
update of the second one, whose chain passed the checks, stops the batch.
-/
theorem apply_changes_index_of_shared_block :
    let index : Index :=
      { capacity := 1
        pool := { numBlocks := 1 }
        heads := { rows := [{ type := .player, heads := #[some 0, some 0] }] }
        arena := { blocks := #[{ postings := [{ game := 1, count := 1 }] }] }
        usable := by decide }
    let batch : List GameChange :=
      [{ game := 1, old := some { white := some 0 } },
        { game := 2, new := some { black := some 1 } }]
    ¬ index.KeepsApart (Touched batch) ∧
      (index.apply batch).stop = some (.corruptChain 0 .emptyBlock) ∧
        (index.apply batch).index ≠ index := by
  decide +kernel

end Index

end PostingIndex
