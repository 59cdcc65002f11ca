import PostingIndex.Proofs.BatchCounts

/-!
# A batch and its changes one by one

A batch groups its changes by entity, keeps the last count that is asked for in
each game, and introduces entities in ascending order.  Where its changes can be
applied one by one, the batch can be applied as well, and both ways lead to the
same extents and the same posting lists.

## Contents

Changes applied one by one, what they amount to, and the comparison with the
batch.
-/

namespace PostingIndex

open GameChange

theorem GameChange.touched_cons {change : GameChange} {rest : List GameChange}
    {entity : Entity} :
    Touched (change :: rest) entity ↔ Touched [change] entity ∨ Touched rest entity := by
  simp [Touched]

namespace Index

variable {index between last : Index} {layout : Layout} {change : GameChange}
  {batch rest : List GameChange}

/-- Applies changes one by one, each in a batch of its own, until one fails. -/
def applyEach (index : Index) (batch : List GameChange) : Except IndexError Index :=
  batch.foldlM (fun index change => (index.apply [change]).result) index

/-!
## One change before the rest
-/

theorem Addressed.absorbs_nil (h : index.Addressed layout) : index.Absorbs [] index where
  addressed := ⟨layout, h⟩
  types := rfl
  extent := by
    simp [Touched]
  counts := by
    intro entity game
    rfl

theorem Absorbs.cons (hfirst : index.Absorbs [change] between)
    (hrest : between.Absorbs rest last) : index.Absorbs (change :: rest) last := by
  constructor
  · exact hrest.addressed
  · exact hrest.types.trans hfirst.types
  · intro type bound
    have htouched : ∀ entity, Touched (change :: rest) entity ↔
        Touched [change] entity ∨ Touched rest entity := fun _ => touched_cons
    rw [hrest.extent, hfirst.extent]
    simp only [htouched, or_imp, forall_and, and_assoc]
  · intro entity game
    rw [hrest.counts, hfirst.counts, settle_lastRequest?, settle_lastRequest?,
      settle_lastRequest?, List.foldl_cons]
    rfl

theorem TakesPart.mono {fewer more : Entity -> Prop} (hmore : ∀ entity, fewer entity -> more entity)
    {entity : Entity} (h : index.TakesPart fewer entity) : index.TakesPart more entity :=
  ⟨h.follows.mono hmore, h.next, h.small⟩

/-- What a change introduces is at hand for the changes after it. -/
theorem Absorbs.takesPart_cons (hfirst : index.Absorbs [change] between)
    (hchange : ∀ entity, Touched [change] entity -> index.TakesPart (Touched [change]) entity)
    (hrest : ∀ entity, Touched rest entity -> between.TakesPart (Touched rest) entity) :
    ∀ entity, Touched (change :: rest) entity ->
      index.TakesPart (Touched (change :: rest)) entity := by
  intro entity htouched
  rcases touched_cons.mp htouched with hnow | hlater
  · exact (hchange entity hnow).mono fun _ hother => touched_cons.mpr (Or.inl hother)
  · have hentity := hrest entity hlater
    rcases hentity.follows with ⟨htype, hbelow⟩
    by_cases hshort : index.heads.extent entity.type < 2 ^ 32
    · refine ⟨⟨hfirst.types ▸ htype, ?_⟩, hentity.next,
        fun hlong => absurd hlong (Nat.not_le.mpr hshort)⟩
      intro id hknown hid
      have hbetween : between.extents entity.type = between.heads.extent entity.type :=
        HeadTable.toNat_reported
          (hfirst.extent_lt (fun _ htouched => (hchange _ htouched).next) hshort)
      by_cases hreached : between.heads.extent entity.type ≤ id.toNat
      · exact touched_cons.mpr (Or.inr (hbelow id (hbetween ▸ hreached) hid))
      · -- The number is known by then, so the change introduced an entity at or above it.
        rw [hfirst.extent, not_and] at hreached
        have hstart : index.extents entity.type = index.heads.extent entity.type :=
          HeadTable.toNat_reported hshort
        have hsome := hreached (hstart ▸ hknown)
        push Not at hsome
        rcases hsome with ⟨other, hother, hsame, hle⟩
        have hin := (hchange other hother).follows.right id (hsame ▸ hknown)
          (UInt32.le_iff_toNat_le.mpr hle)
        rw [hsame] at hin
        exact touched_cons.mpr (Or.inl hin)
    · -- The catalogue has outgrown 32 bits and stays as it is.
      have hlong := Nat.not_lt.mp hshort
      have hsame := hfirst.extent_eq (fun _ htouched => (hchange _ htouched).next) hlong
      have hreported : between.extents entity.type = index.extents entity.type := by
        rw [extents, extents, HeadTable.reported, HeadTable.reported, hsame]
      refine ⟨⟨hfirst.types ▸ htype, ?_⟩, hentity.next, ?_⟩
      · intro id hknown hid
        exact touched_cons.mpr (Or.inr (hbelow id (hreported ▸ hknown) hid))
      · rw [← hsame]
        exact hentity.small

/-!
## All changes
-/

theorem Addressed.absorbs_applyEach (h : index.Addressed layout)
    (heach : index.applyEach batch = .ok last) :
    index.Absorbs batch last ∧ (∀ change ∈ batch, ¬ change.Uncountable) ∧
      ∀ entity, Touched batch entity -> index.TakesPart (Touched batch) entity := by
  induction batch generalizing index layout with
  | nil =>
      rw [applyEach, List.foldlM_nil, Outcome.pure_eq_ok] at heach
      subst heach
      refine ⟨h.absorbs_nil, ?_, ?_⟩
      · intro change hmem
        cases hmem
      · rintro entity ⟨_, ⟨⟩, _⟩
  | cons change rest ih =>
      rw [applyEach, List.foldlM_cons, Outcome.bind_eq_ok] at heach
      rcases heach with ⟨between, hbetween, heach⟩
      have hfirst := h.absorbs_apply hbetween
      rcases hfirst.addressed with ⟨_, haddressed⟩
      rcases ih haddressed heach with ⟨hrest, hcountable, htakes⟩
      rcases h.takesPart_of_stop_eq_none (result_eq_ok.mp hbetween).left with
        ⟨hcounted, hchange⟩
      refine ⟨hfirst.cons hrest, ?_, hfirst.takesPart_cons hchange htakes⟩
      exact List.forall_mem_cons.mpr ⟨hcounted change List.mem_cons_self, hcountable⟩

/--
If the changes of a batch can be applied to an audited index one by one, the
batch can be applied as a whole while numbers last and links of 32 bits reach all
of the arena.  The two indexes know the same entities and have the same posting lists.
-/
theorem apply_eq_applyEach (hverify : index.verify = .ok ())
    (hsize : index.arena.size < 2 ^ 32) (hlast : index.LastsThrough batch)
    (heach : index.applyEach batch = .ok last) :
    ∃ whole, (index.apply batch).result = .ok whole ∧
      (∀ type, whole.known type = last.known type) ∧
        ∀ entity, whole.postings entity = last.postings entity := by
  have h := addressed_of_verify hverify hsize
  rcases h.absorbs_applyEach heach with ⟨habsorbs, hcountable, htakes⟩
  have hstop := h.stop_eq_none_of_takesPart hlast hcountable htakes
  have hresult : (index.apply batch).result = .ok (index.apply batch).index :=
    result_eq_ok.mpr ⟨hstop, rfl⟩
  have hwhole := h.absorbs_apply hresult
  exact ⟨_, hresult, hwhole.known_eq habsorbs, hwhole.postings_eq habsorbs⟩

/--
Two players are introduced and the first one is counted again.  One by one the
second player gets a block in between, and as a batch he gets the last one.
-/
theorem apply_eq_applyEach_player :
    let index : Index :=
      { capacity := 1
        pool := Pool.empty
        heads := HeadTable.ofTypes [.player]
        arena := Arena.empty
        usable := by decide }
    let batch : List GameChange := [
      { game := 4, new := some { white := some 0 } },
      { game := 5, new := some { black := some 1 } },
      { game := 5, new := some { white := some 0, black := some 0 } }]
    index.verify = .ok () ∧ index.arena.size < 2 ^ 32 ∧ index.LastsThrough batch ∧
      ∃ last, index.applyEach batch = .ok last ∧
        ∃ whole, (index.apply batch).result = .ok whole ∧
          (∀ type, whole.known type = last.known type) ∧
            ∀ entity, whole.postings entity = last.postings entity := by
  intro index batch
  have hverify : index.verify = .ok () := by decide +kernel
  have hsize : index.arena.size < 2 ^ 32 := by decide
  have hlast : index.LastsThrough batch := by decide +kernel
  have hok : (index.applyEach batch).isOk = true := by decide +kernel
  cases heach : index.applyEach batch with
  | ok last =>
      exact ⟨hverify, hsize, hlast, last, rfl, apply_eq_applyEach hverify hsize hlast heach⟩
  | error error =>
      rw [heach] at hok
      cases hok

end Index

end PostingIndex
