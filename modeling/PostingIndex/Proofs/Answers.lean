import PostingIndex.Game.Batch
import PostingIndex.Index.Statistics
import PostingIndex.Proofs.Repacking

/-!
# What a soundly laid out index answers

Requests to a soundly laid out index fail for two reasons only: the catalogue is
not configured, or the turn of the entity has not come.  Otherwise they abort for
want of a 32-bit number, or they succeed.  No request finds a corrupt chain, and
the statistics can always be computed.

## Contents

The reasons, the requests that can fail, the checks before a batch, and the
statistics.
-/

namespace PostingIndex

/-- The reasons for which requests to a sound index fail or abort. -/
def IndexError.Refusal (error : IndexError) : Prop :=
  (∃ type, error = .unknownType type) ∨
    (∃ entity known, error = .entityOutOfRange entity known) ∨
      error = .aborted .addOverflow

theorem IndexError.Refusal.ne_corruptChain {error : IndexError} (h : error.Refusal)
    (id : BlockId) (fault : ChainFault) : error ≠ .corruptChain id fault := by
  rcases h with ⟨type, rfl⟩ | ⟨entity, known, rfl⟩ | rfl
  · intro hsame
    cases hsame
  · intro hsame
    cases hsame
  · intro hsame
    cases hsame

namespace Index

theorem refusal_of_known {index : Index} {type : EntityType} {error : IndexError}
    (h : index.known type = .error error) : error.Refusal := by
  by_cases hmem : type ∈ index.heads.types
  · rw [known, HeadTable.known_of_mem hmem] at h
    cases h
  · rw [known, HeadTable.known_of_not_mem hmem] at h
    cases h
    exact Or.inl ⟨type, rfl⟩

def knownBy (index : Index) (reached : Option ReachedExtent) (entity : Entity) :
    Except IndexError UInt32 :=
  match reached with
  | some extent =>
      if extent.type = entity.type then .ok extent.known else index.known entity.type
  | none => index.known entity.type

theorem checkReached_eq (index : Index) (reached : Option ReachedExtent) (entity : Entity) :
    index.checkReached reached entity =
      (index.knownBy reached entity >>= fun known =>
        if known < entity.id then
          .error (.entityOutOfRange entity known)
        else
          (Checked.succ entity.id).map fun next =>
            some { type := entity.type, known := max known next }) := by
  have hcheck : ∀ known : UInt32,
      (do
        if known < entity.id then
          throw (.entityOutOfRange entity known)
        let next ← Checked.succ entity.id
        return some { type := entity.type, known := max known next }) =
          if known < entity.id then
            .error (.entityOutOfRange entity known)
          else
            (Checked.succ entity.id).map fun next =>
              some ({ type := entity.type, known := max known next } : ReachedExtent) := by
    intro known
    by_cases hlt : known < entity.id
    · rw [if_pos hlt, if_pos hlt]
      rfl
    · rw [if_neg hlt, if_neg hlt]
      cases Checked.succ entity.id <;> rfl
  cases reached with
  | none =>
      unfold checkReached knownBy
      exact bind_congr hcheck
  | some extent =>
      unfold checkReached knownBy
      by_cases htype : extent.type = entity.type
      · simp only [htype, if_true]
        exact hcheck extent.known
      · simp only [htype, if_false]
        exact bind_congr hcheck

theorem refusal_of_checkReached {index : Index} {reached : Option ReachedExtent}
    {entity : Entity} {error : IndexError}
    (h : index.checkReached reached entity = .error error) : error.Refusal := by
  rw [checkReached_eq, Outcome.bind_eq_error] at h
  rcases h with hknown | ⟨known, _, hrest⟩
  · unfold knownBy at hknown
    split at hknown
    · split at hknown
      · cases hknown
      · exact refusal_of_known hknown
    · exact refusal_of_known hknown
  · by_cases hlt : known < entity.id
    · rw [if_pos hlt] at hrest
      cases hrest
      exact Or.inr (Or.inl ⟨entity, known, rfl⟩)
    · rw [if_neg hlt, Outcome.map_eq_error, Checked.succ_eq_error] at hrest
      exact Or.inr (Or.inr hrest.right)

theorem refusal_of_checkExtents {index : Index} {entities : List Entity}
    {error : IndexError} (h : index.checkExtents entities = .error error) :
    error.Refusal := by
  simp only [checkExtents, Outcome.bind_eq_error, Outcome.pure_ne_error, and_false,
    exists_false, or_false] at h
  exact Outcome.foldlM_eq_error (fun _ _ _ => refusal_of_checkReached) h

/-!
## Statistics of a layout
-/

def typeLayout (index : Index) (layout : Layout) (type : EntityType) :
    List (List StoredBlock) :=
  ((index.heads.places type).filter fun slot => (index.heads.headAt slot).isSome).map layout

def typeCounters (index : Index) (layout : Layout) (type : EntityType) : TypeStatistics :=
  let chains := index.typeLayout layout type
  { type
    known := index.heads.reported type
    nonEmpty := chains.length
    postings := (chains.map fun chain => (chainPostings chain).length).sum }

def counters (index : Index) (layout : Layout) : Statistics :=
  let types := index.heads.types.map (index.typeCounters layout)
  { capacity := index.capacity
    types
    totalPostings := (types.map TypeStatistics.postings).sum
    numBlocks := index.pool.numBlocks
    freeBlocks := UInt32.ofNat index.pool.free.size
    liveBlocks := index.pool.numBlocks.toNat - index.pool.free.size
    longestChain :=
      ((index.heads.types.map (index.typeLayout layout)).flatten.map List.length).foldl max 0 }

namespace Laid

variable {index : Index} {layout : Layout}

/-!
## Refusals
-/

theorem refusal_of_chain (h : index.Laid layout) {entity : Entity}
    {error : IndexError} (hchain : index.chain entity = .error error) : error.Refusal := by
  by_cases hmem : entity.type ∈ index.heads.types
  · rw [h.chain_eq hmem] at hchain
    cases hchain
  · rw [index.chain_of_not_mem hmem] at hchain
    cases hchain
    exact Or.inl ⟨entity.type, rfl⟩

theorem refusal_of_postings (h : index.Laid layout) {entity : Entity}
    {error : IndexError} (hpostings : index.postings entity = .error error) :
    error.Refusal := by
  rw [postings, Outcome.map_eq_error] at hpostings
  exact h.refusal_of_chain hpostings

theorem refusal_of_games (h : index.Laid layout) {expand : Bool} {entity : Entity}
    {error : IndexError} (hgames : index.games expand entity = .error error) :
    error.Refusal := by
  rw [games, Outcome.map_eq_error] at hgames
  exact h.refusal_of_postings hgames

theorem refusal_of_chainLength (h : index.Laid layout) {entity : Entity}
    {error : IndexError} (hlength : index.chainLength entity = .error error) :
    error.Refusal := by
  rw [chainLength, Outcome.map_eq_error] at hlength
  exact h.refusal_of_chain hlength

theorem refusal_of_update (h : index.Laid layout) {entity : Entity}
    {changes : Changes} {error : IndexError}
    (hupdate : index.update entity changes = .error error) : error.Refusal := by
  rcases h.update_eq_error.mp hupdate with hcheck | ⟨_, _, heq⟩
  · rcases HeadTable.checkExtent_eq_error hcheck with heq | heq
    · exact Or.inl ⟨_, heq⟩
    · exact Or.inr (Or.inl ⟨_, _, heq⟩)
  · exact Or.inr (Or.inr heq)

theorem refusal_of_checkChains (h : index.Laid layout) {entities : List Entity}
    {error : IndexError} (hcheck : index.checkChains entities = .error error) :
    error.Refusal := by
  apply Outcome.forM_eq_error _ hcheck
  intro entity error hstep
  simp only [Outcome.bind_eq_error, Outcome.pure_ne_error, and_false, exists_false,
    or_false] at hstep
  exact h.refusal_of_chainLength hstep

/-!
## Statistics
-/

theorem typeChains_eq (h : index.Laid layout) {type : EntityType}
    (hmem : type ∈ index.heads.types) :
    index.typeChains type = .ok (index.typeLayout layout type) := by
  rcases HeadTable.exists_heads? hmem with ⟨heads, hheads⟩
  rw [typeChains, HeadTable.heads_eq_ok.mpr hheads]
  show ((heads.toList.filterMap id).mapM fun head => (index.walkFrom (some head)).result) = _
  rw [HeadTable.toList_heads hheads, List.filterMap_map]
  apply Outcome.mapM_filterMap_eq_ok
  intro slot _ head hhead
  have hat : index.heads.headAt slot = some head := hhead
  exact hat ▸ h.walkFrom_result slot

theorem typeStatistics_eq {type : EntityType} (hmem : type ∈ index.heads.types) :
    index.typeStatistics type (index.typeLayout layout type) =
      .ok (index.typeCounters layout type) := by
  rw [typeStatistics, Index.known, HeadTable.known_of_mem hmem]
  rfl

theorem statistics_eq (h : index.Laid layout) :
    index.statistics = .ok (index.counters layout) := by
  have hchains : index.heads.types.mapM index.typeChains =
      .ok (index.heads.types.map (index.typeLayout layout)) :=
    Outcome.mapM_eq_ok_map fun type hmem => h.typeChains_eq hmem
  have htypes : (index.heads.types.map fun type => (type, index.typeLayout layout type)).mapM
      (fun entry => index.typeStatistics entry.1 entry.2) =
        .ok (index.heads.types.map (index.typeCounters layout)) := by
    rw [List.mapM_map]
    exact Outcome.mapM_eq_ok_map fun type hmem => typeStatistics_eq hmem
  rw [List.map_prod_left_eq_zip] at htypes
  rw [statistics, hchains]
  simp only [bind, Except.bind, htypes, Pool.liveBlocks_eq_ok h.freeWithin]
  rfl

theorem exists_statistics (h : index.Laid layout) :
    ∃ statistics, index.statistics = .ok statistics :=
  ⟨_, h.statistics_eq⟩

end Laid

end Index

end PostingIndex
