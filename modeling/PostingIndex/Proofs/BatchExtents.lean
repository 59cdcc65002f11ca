import PostingIndex.Proofs.BatchRuns

/-!
# What a batch introduces

On an audited index nothing but the extents can stop a batch, as long as numbers
last.  It succeeds exactly if every entity that it touches can be introduced
along with the others, and then each catalogue grows to hold the greatest entity
touched in it.  Otherwise the first entity whose turn does not come stops the
batch.  What does not fit 32 bits aborts it.

## Contents

The checks of a batch on an audited index, the entities that take part in one,
the extents afterwards, and the outcome of a batch.
-/

namespace PostingIndex

open GameChange

namespace Index

variable {index : Index} {layout : Layout} {batch : List GameChange}
  {changes : EntityChanges}

theorem mem_keys_eq_touched (hcollect : EntityChanges.ofBatch batch = .ok changes) :
    (· ∈ changes.keys) = Touched batch := by
  funext entity
  exact propext (EntityChanges.mem_keys_ofBatch hcollect)

/-!
## The checks
-/

theorem Laid.checkChains_eq_ok (h : index.Laid layout) {entities : List Entity}
    (hmem : ∀ entity ∈ entities, entity.type ∈ index.heads.types) :
    index.checkChains entities = .ok () := by
  apply Outcome.forM_eq_ok.mpr
  intro entity hentity
  rw [h.chainLength_eq (hmem entity hentity)]
  rfl

/-- On a sound layout the extents alone decide whether a batch passes its checks. -/
theorem Laid.prepare_eq_ok (h : index.Laid layout) :
    index.prepare batch = .ok changes ↔
      EntityChanges.ofBatch batch = .ok changes ∧
        ∃ last, changes.keys.foldlM (Extents.accept index.heads.types) index.extents =
          .ok last := by
  rw [Index.prepare_eq_ok]
  apply and_congr_right
  intro hcollect
  constructor
  · rintro ⟨hextents, _⟩
    exact exists_foldlM_accept (ordered_keys changes) hextents
  · rintro ⟨last, hlast⟩
    rw [checkExtents_eq (ordered_keys changes), hlast]
    have hfollows := Extents.follows_of_foldlM_eq_ok hlast
    exact ⟨rfl, h.checkChains_eq_ok fun entity hmem => (hfollows entity hmem).left⟩

theorem Laid.prepare_eq_error (h : index.Laid layout) {error : IndexError} :
    index.prepare batch = .error error ↔
      EntityChanges.ofBatch batch = .error error ∨
        ∃ changes, EntityChanges.ofBatch batch = .ok changes ∧
          changes.keys.foldlM (Extents.accept index.heads.types) index.extents =
            .error error := by
  rw [Index.prepare_eq_error]
  apply or_congr_right
  apply exists_congr
  intro changes
  apply and_congr_right
  intro _
  rw [checkExtents_eq (ordered_keys changes), Outcome.map_eq_error]
  constructor
  · rintro (hextents | ⟨hextents, hchains⟩)
    · exact hextents
    · rcases Outcome.map_eq_ok.mp hextents with ⟨last, hlast, _⟩
      have hfollows := Extents.follows_of_foldlM_eq_ok hlast
      rw [h.checkChains_eq_ok fun entity hmem => (hfollows entity hmem).left] at hchains
      cases hchains
  · exact Or.inl

/-!
## Entities that take part
-/

/--
An entity can take part in a batch along with others: its turn comes, the number
after its own exists, and in a catalogue that has outgrown 32 bits it is among
the reported ones.
-/
structure TakesPart (index : Index) (among : Entity -> Prop) (entity : Entity) : Prop where
  follows : Extents.Follows index.heads.types index.extents among entity
  next : entity.id.toNat + 1 < 2 ^ 32
  small : 2 ^ 32 ≤ index.heads.extent entity.type ->
    entity.id.toNat ≤ index.heads.extent entity.type % 2 ^ 32

theorem Laid.takesPart_of_stop_eq_none (h : index.Laid layout)
    (hstop : (index.apply batch).stop = none) :
    (∀ change ∈ batch, ¬ change.Uncountable) ∧
      ∀ entity, Touched batch entity -> index.TakesPart (Touched batch) entity := by
  cases hprepare : index.prepare batch with
  | error error =>
      rw [apply_of_prepare_error hprepare] at hstop
      cases hstop
  | ok changes =>
      rw [apply_of_prepare_ok hprepare] at hstop
      rcases h.prepare_eq_ok.mp hprepare with ⟨hcollect, last, haccept⟩
      have hturns := (allMade_of_stop_eq_none hstop).turns
      rw [Std.TreeMap.map_fst_toList_eq_keys] at hturns
      have hnext := Extents.lt_of_foldlM_eq_ok haccept
      refine ⟨EntityChanges.exists_ofBatch_iff.mp ⟨changes, hcollect⟩, ?_⟩
      intro entity htouched
      have hmem := (EntityChanges.mem_keys_ofBatch hcollect).mpr htouched
      have hfollows := Extents.follows_of_foldlM_eq_ok haccept entity hmem
      rw [mem_keys_eq_touched hcollect] at hfollows
      exact ⟨hfollows, hnext entity hmem, hturns.small hnext entity hmem⟩

theorem Laid.stop_eq_none_of_turnsCome (h : index.Laid layout)
    (hlast : index.LastsThrough batch) (hprepare : index.prepare batch = .ok changes)
    (hturns : Extents.TurnsCome index.heads.types index.heads.extent changes.keys) :
    (index.apply batch).stop = none := by
  have hready := h.ready (nodup_keys changes) hturns
  rw [← Std.TreeMap.map_fst_toList_eq_keys] at hready
  rw [apply_of_prepare_ok hprepare]
  let start : BatchRun := { index }
  have hstart : start.index.Ready layout _ := hready
  exact hstart.stop_runUpdates h.freeWithin rfl (hlast changes hprepare)

theorem Laid.stop_eq_none_of_takesPart (h : index.Laid layout)
    (hlast : index.LastsThrough batch) (hcountable : ∀ change ∈ batch, ¬ change.Uncountable)
    (htakes : ∀ entity, Touched batch entity -> index.TakesPart (Touched batch) entity) :
    (index.apply batch).stop = none := by
  rcases EntityChanges.exists_ofBatch_iff.mpr hcountable with ⟨changes, hcollect⟩
  rw [← mem_keys_eq_touched hcollect] at htakes
  have haccept := Extents.foldlM_eq_ok_of_follows (ordered_keys changes)
    (fun entity hmem => (htakes entity hmem).next)
    (fun entity hmem => (htakes entity hmem).follows)
  apply h.stop_eq_none_of_turnsCome hlast (h.prepare_eq_ok.mpr ⟨hcollect, _, haccept⟩)
  apply Extents.turnsCome_of_foldlM_accept haccept
  intro entity hmem
  by_cases hshort : index.heads.extent entity.type < 2 ^ 32
  · exact Or.inl ⟨hshort, HeadTable.toNat_reported hshort⟩
  · have hlong := Nat.not_lt.mp hshort
    exact Or.inr ⟨hlong, (htakes entity hmem).small hlong⟩

theorem allMade_apply (hstop : (index.apply batch).stop = none) :
    ∃ changes, EntityChanges.ofBatch batch = .ok changes ∧
      index.AllMade changes.toList (index.apply batch).index := by
  cases hprepare : index.prepare batch with
  | error error =>
      rw [apply_of_prepare_error hprepare] at hstop
      cases hstop
  | ok changes =>
      rw [apply_of_prepare_ok hprepare] at hstop ⊢
      exact ⟨changes, (prepare_eq_ok.mp hprepare).left, allMade_of_stop_eq_none hstop⟩

end Index

end PostingIndex
