import PostingIndex.Proofs.ArenaWrites
import PostingIndex.Proofs.ChainWalk
import PostingIndex.Proofs.PoolSupply
import PostingIndex.Proofs.RunPacking

/-!
# Block numbers of a packed chain

Every packed run becomes a block.  Its number is the block it came from, or one
that the chain gave up, or one from the pool.  No number is lost: the numbers of
the new chain and the freed ones are exactly the old ones and those the pool
handed out.

## Contents

Sorting numbers, the numbers in use, choosing a number for each run, linking
numbered blocks, and what a packing decides as a whole.
-/

namespace PostingIndex

namespace Ascending

theorem perm_place (id : BlockId) (ids : List BlockId) : (place id ids).Perm (id :: ids) := by
  induction ids with
  | nil =>
      exact List.Perm.refl _
  | cons head rest ih =>
      by_cases h : id ≤ head
      · simp [place, h]
      · simp only [place, h, if_false]
        exact (ih.cons head).trans (List.Perm.swap id head rest)

theorem perm_sort (ids : List BlockId) : (sort ids).Perm ids := by
  induction ids with
  | nil =>
      exact List.Perm.refl _
  | cons head rest ih =>
      exact (perm_place head (sort rest)).trans (ih.cons head)

theorem pairwise_place {id : BlockId} {ids : List BlockId} (h : ids.Pairwise (· ≤ ·)) :
    (place id ids).Pairwise (· ≤ ·) := by
  induction ids with
  | nil =>
      exact List.pairwise_singleton _ _
  | cons head rest ih =>
      rcases List.pairwise_cons.mp h with ⟨hhead, hrest⟩
      rw [place]
      split
      · next hle =>
          refine List.pairwise_cons.mpr ⟨?_, h⟩
          intro other hmem
          rcases List.mem_cons.mp hmem with rfl | hmem
          · exact hle
          · exact UInt32.le_trans hle (hhead other hmem)
      · next hnot =>
          refine List.pairwise_cons.mpr ⟨?_, ih hrest⟩
          intro other hmem
          rcases List.mem_cons.mp ((perm_place id rest).mem_iff.mp hmem) with rfl | hmem
          · exact UInt32.le_of_lt (UInt32.not_le.mp hnot)
          · exact hhead other hmem

theorem pairwise_sort (ids : List BlockId) : (sort ids).Pairwise (· ≤ ·) := by
  induction ids with
  | nil =>
      exact List.Pairwise.nil
  | cons id rest ih =>
      exact pairwise_place ih

end Ascending

/-!
## Numbers in use
-/

theorem IdSet.size_le {set : IdSet} {bound : Nat} (h : ∀ id ∈ set, id.toNat < bound) :
    set.size ≤ bound :=
  length_le_of_nodup_of_lt (Ascending.nodup_of_key id set.ascending) h

namespace Pool

variable {pool : Pool}

theorem size_free_le (h : pool.FreeWithin) : pool.free.size ≤ pool.numBlocks.toNat :=
  IdSet.size_le fun id hmem => UInt32.lt_iff_toNat_lt.mp (h id hmem)

theorem liveBlocks_eq_ok (h : pool.FreeWithin) :
    pool.liveBlocks = .ok (pool.numBlocks.toNat - pool.free.size) := by
  have hle := size_free_le h
  have hsize : (UInt32.ofNat pool.free.size).toNat = pool.free.size :=
    UInt32.toNat_ofNat_of_lt' (Nat.lt_of_le_of_lt hle pool.numBlocks.toNat_lt)
  rw [liveBlocks, hsize]
  exact Checked.sub_eq_ok.mpr ⟨hle, rfl⟩

end Pool

/-!
## Choosing numbers
-/

namespace Assignment

structure Balanced (spare : List BlockId) (pool : Pool) (runs : List Run)
    (state : Assignment) : Prop where
  each : state.ids.length = runs.length
  numbers : (state.ids ++ state.spare).Perm
    (Run.origins runs ++ spare ++ state.allocated)
  supply : pool.Takes state.allocated state.pool
  frugal : state.allocated = [] ∨ state.spare = []

theorem balanced_start (spare : List BlockId) (pool : Pool) :
    Balanced spare pool [] { spare, pool } where
  each := rfl
  numbers := by
    simp
  supply := Pool.Takes.done
  frugal := Or.inl rfl

theorem choose_eq_ok {state after : Assignment} {run : Run} :
    state.choose run = .ok after ↔
      (∃ id, run.origin = some id ∧ { state with ids := id :: state.ids } = after) ∨
        (∃ id spare, run.origin = none ∧ state.spare = id :: spare ∧
          { state with ids := id :: state.ids, spare } = after) ∨
        ∃ id pool, run.origin = none ∧ state.spare = [] ∧
          state.pool.allocate = .ok (id, pool) ∧
            { ids := id :: state.ids
              spare := []
              pool
              allocated := id :: state.allocated } = after := by
  rcases state with ⟨ids, spare, pool, allocated⟩
  unfold choose
  cases run.origin with
  | some id =>
      simp
  | none =>
      cases spare with
      | cons id spare =>
          simp [and_assoc]
      | nil =>
          simp

def unplaced (runs : List Run) : Nat :=
  runs.countP fun run => run.origin.isNone

theorem foldlM_choose_eq_error {state : Assignment} {runs : List Run} {error : IndexError} :
    runs.foldlM choose state = .error error ↔
      state.pool.remaining < unplaced runs - state.spare.length ∧
        error = .aborted .addOverflow := by
  induction runs generalizing state with
  | nil =>
      simp [unplaced]
  | cons run runs ih =>
      rcases state with ⟨ids, spare, pool, allocated⟩
      rw [List.foldlM_cons, Outcome.bind_eq_error]
      unfold unplaced at ih ⊢
      cases horigin : run.origin with
      | some id =>
          simp [choose, horigin, ih]
      | none =>
          cases spare with
          | cons id spare =>
              simp [choose, horigin, ih]
          | nil =>
              simp only [choose, horigin, Outcome.bind_eq_error, Outcome.pure_ne_error,
                and_false, exists_false, or_false, Pool.allocate_eq_error,
                Outcome.bind_eq_ok, Outcome.pure_eq_ok, List.countP_cons, Option.isNone_none,
                if_true, List.length_nil, Nat.sub_zero]
              constructor
              · rintro (⟨hnone, herror⟩ | ⟨_, ⟨⟨id, rest⟩, hallocate, rfl⟩, hrest⟩)
                · exact ⟨by omega, herror⟩
                · have hless := Pool.remaining_of_allocate hallocate
                  rcases ih.mp hrest with ⟨hshort, herror⟩
                  simp only [List.length_nil, Nat.sub_zero] at hshort
                  exact ⟨by omega, herror⟩
              · rintro ⟨hshort, herror⟩
                by_cases hnone : pool.remaining = 0
                · exact Or.inl ⟨hnone, herror⟩
                · rcases Pool.exists_allocate (Nat.pos_of_ne_zero hnone) with
                    ⟨id, rest, hallocate⟩
                  have hless := Pool.remaining_of_allocate hallocate
                  refine Or.inr ⟨_, ⟨(id, rest), hallocate, rfl⟩, ih.mpr ⟨?_, herror⟩⟩
                  simp only [List.length_nil, Nat.sub_zero]
                  omega

theorem length_allocated_foldlM {state after : Assignment} {runs : List Run}
    (h : runs.foldlM choose state = .ok after) :
    after.allocated.length =
      state.allocated.length + (unplaced runs - state.spare.length) := by
  induction runs generalizing state with
  | nil =>
      cases h
      simp [unplaced]
  | cons run runs ih =>
      rw [List.foldlM_cons, Outcome.bind_eq_ok] at h
      rcases h with ⟨between, hchoose, hrest⟩
      rw [ih hrest]
      unfold unplaced
      rcases choose_eq_ok.mp hchoose with
        ⟨id, horigin, rfl⟩ | ⟨id, spare, horigin, hspare, rfl⟩ |
          ⟨id, pool, horigin, hspare, _, rfl⟩
      · simp [horigin]
      · simp [horigin, hspare]
      · simp [horigin, hspare]
        omega

theorem Balanced.choose {spare : List BlockId} {pool : Pool} {runs : List Run}
    {state after : Assignment} (h : Balanced spare pool runs state) {run : Run}
    (hchoose : state.choose run = .ok after) :
    Balanced spare pool (runs ++ [run]) after := by
  rcases state with ⟨ids, left, rest, allocated⟩
  have hnumbers := h.numbers
  rcases choose_eq_ok.mp hchoose with
    ⟨id, horigin, rfl⟩ | ⟨id, others, horigin, hleft, rfl⟩ |
      ⟨id, taken, horigin, hleft, hallocate, rfl⟩
  · constructor
    · simpa using h.each
    · have hmove : (id :: (Run.origins runs ++ (spare ++ allocated))).Perm
          (Run.origins runs ++ (id :: (spare ++ allocated))) :=
        List.perm_middle.symm
      simp only [List.append_assoc] at hnumbers
      simpa [horigin] using (hnumbers.cons id).trans hmove
    · exact h.supply
    · exact h.frugal
  · have hsome : left = id :: others := hleft
    subst hsome
    constructor
    · simpa using h.each
    · have hmove : (id :: (ids ++ others)).Perm (ids ++ (id :: others)) :=
        List.perm_middle.symm
      simpa [horigin] using hmove.trans hnumbers
    · exact h.supply
    · -- Numbers are left, so none came from the pool.
      have hnone : allocated = [] := by
        simpa using h.frugal
      exact Or.inl hnone
  · have hnil : left = [] := hleft
    subst hnil
    constructor
    · simpa using h.each
    · have hmiddle : ((Run.origins runs ++ spare) ++ (id :: allocated)).Perm
          (id :: ((Run.origins runs ++ spare) ++ allocated)) :=
        List.perm_middle
      simp only [List.append_nil] at hnumbers
      simpa [horigin] using (hnumbers.cons id).trans hmiddle.symm
    · exact .next h.supply hallocate
    · exact Or.inr rfl

theorem balanced_foldlM {spare : List BlockId} {pool : Pool} {before runs : List Run}
    {state after : Assignment} (h : Balanced spare pool before state)
    (hruns : runs.foldlM Assignment.choose state = .ok after) :
    Balanced spare pool (before ++ runs) after := by
  induction runs generalizing before state with
  | nil =>
      cases hruns
      simpa using h
  | cons run runs ih =>
      rw [List.foldlM_cons, Outcome.bind_eq_ok] at hruns
      rcases hruns with ⟨between, hchoose, hrest⟩
      have hstep := ih (h.choose hchoose) hrest
      rw [List.append_assoc, List.singleton_append] at hstep
      exact hstep

theorem balanced_ofRuns {spare : List BlockId} {pool : Pool} {runs : List Run}
    {state : Assignment} (h : ofRuns spare pool runs = .ok state) :
    Balanced spare pool runs state :=
  balanced_foldlM (balanced_start spare pool) h

end Assignment

/-!
## Linking blocks
-/

namespace Packing

theorem linked_cons (id : BlockId) (ids : List BlockId) (part : List Posting)
    (parts : List (List Posting)) :
    linked (id :: ids) (part :: parts) =
      { id, block := { postings := part, next := ids.head? } } :: linked ids parts := by
  cases ids with
  | nil =>
      simp [linked]
  | cons next ids =>
      simp [linked]

@[simp]
theorem linked_nil (parts : List (List Posting)) : linked [] parts = [] := by
  simp [linked]

theorem chainIds_linked {ids : List BlockId} {parts : List (List Posting)}
    (h : ids.length = parts.length) : chainIds (linked ids parts) = ids := by
  induction ids generalizing parts with
  | nil =>
      simp
  | cons id ids ih =>
      cases parts with
      | nil =>
          simp at h
      | cons part parts =>
          rw [linked_cons, chainIds_cons, ih (by simpa using h)]

theorem linked_linked {ids : List BlockId} {parts : List (List Posting)}
    (h : ids.length = parts.length) : Linked (linked ids parts) := by
  induction ids generalizing parts with
  | nil =>
      simp [Linked]
  | cons id ids ih =>
      cases parts with
      | nil =>
          simp at h
      | cons part parts =>
          have hrest : ids.length = parts.length := by simpa using h
          rw [linked_cons]
          constructor
          · rw [chainHead_eq_head?, chainIds_linked hrest]
          · exact ih hrest

theorem map_postings_linked {ids : List BlockId} {parts : List (List Posting)}
    (h : ids.length = parts.length) :
    (linked ids parts).map (fun stored => stored.block.postings) = parts := by
  induction ids generalizing parts with
  | nil =>
      cases parts with
      | nil =>
          simp
      | cons part parts =>
          simp at h
  | cons id ids ih =>
      cases parts with
      | nil =>
          simp at h
      | cons part parts =>
          rw [linked_cons, List.map_cons, ih (by simpa using h)]

theorem getElem?_foldl_insert {rest : List StoredBlock} {blocks : Std.TreeMap BlockId Block}
    (h : (chainIds rest).Nodup) {stored : StoredBlock} :
    (rest.foldl (fun blocks stored => blocks.insert stored.id stored.block)
        blocks)[stored.id]? = some stored.block ↔
      stored ∈ rest ∨
        (stored.id ∉ chainIds rest ∧ blocks[stored.id]? = some stored.block) := by
  induction rest generalizing blocks with
  | nil =>
      simp
  | cons head rest ih =>
      rcases List.nodup_cons.mp h with ⟨hnew, hrest⟩
      rw [List.foldl_cons, ih hrest, Std.TreeMap.getElem?_insert]
      by_cases hid : head.id = stored.id
      · have hnot : stored.id ∉ chainIds rest := hid ▸ hnew
        have hother : stored ∉ rest := fun hmem =>
          hnot (List.mem_map.mpr ⟨stored, hmem, rfl⟩)
        have hsame : stored = head ↔ head.block = stored.block := by
          rcases stored with ⟨id, block⟩
          rcases head with ⟨headId, headBlock⟩
          have hids : headId = id := hid
          simp [hids, eq_comm]
        simp [hid, hnot, hother, hsame]
      · have hne : stored ≠ head := fun heq => hid (congrArg StoredBlock.id heq).symm
        have hcmp : compare head.id stored.id ≠ .eq := fun heq =>
          hid (Std.LawfulEqOrd.eq_of_compare heq)
        have hid' : stored.id ≠ head.id := fun heq => hid heq.symm
        simp [hcmp, hne, hid']

theorem getElem?_contents {existing : List StoredBlock} (h : (chainIds existing).Nodup)
    {stored : StoredBlock} :
    (contents existing)[stored.id]? = some stored.block ↔ stored ∈ existing := by
  rw [contents, getElem?_foldl_insert h]
  simp

/-!
## The packing as a whole
-/

def packed (capacity : Nat) (runs : List Run) : List Run :=
  (Run.join capacity (runs.flatMap (Run.pieces capacity))).runs.reverse

def spare (capacity : Nat) (runs : List Run) : List BlockId :=
  Ascending.sort (Run.emptyOrigins runs ++
    (Run.join capacity (runs.flatMap (Run.pieces capacity))).released)

/-- How many numbers a packing takes from the pool. -/
def demand (capacity : Nat) (runs : List Run) : Nat :=
  Assignment.unplaced (packed capacity runs) - (spare capacity runs).length

def ofAssignment (existing : List StoredBlock) (parts : List (List Posting))
    (state : Assignment) : Packing :=
  let chain := linked state.ids.reverse parts
  { chain
    writes := chain.filter fun stored => (contents existing)[stored.id]? != some stored.block
    allocated := state.allocated.reverse
    freed := state.spare.reverse
    pool := state.pool }

variable {capacity : Nat} {existing : List StoredBlock} {runs : List Run} {pool : Pool}
  {packing : Packing}

theorem ofRuns_eq_ok :
    ofRuns capacity existing runs pool = .ok packing ↔
      ∃ state, Assignment.ofRuns (spare capacity runs) pool (packed capacity runs) = .ok state ∧
        ofAssignment existing ((packed capacity runs).map Run.postings) state = packing :=
  Outcome.bind_eq_ok.trans (by simp only [Outcome.pure_eq_ok]; rfl)

/-- A packing fails exactly if the pool has too few numbers left. -/
theorem ofRuns_eq_error {error : IndexError} :
    ofRuns capacity existing runs pool = .error error ↔
      pool.remaining < demand capacity runs ∧ error = .aborted .addOverflow := by
  rw [ofRuns, Outcome.bind_eq_error]
  simp only [Outcome.pure_ne_error, and_false, exists_false, or_false]
  exact Assignment.foldlM_choose_eq_error

theorem exists_ofRuns (h : demand capacity runs ≤ pool.remaining) :
    ∃ packing, ofRuns capacity existing runs pool = .ok packing := by
  cases hpack : ofRuns capacity existing runs pool with
  | error error =>
      exact absurd (ofRuns_eq_error.mp hpack).left (Nat.not_lt.mpr h)
  | ok packing =>
      exact ⟨packing, rfl⟩

theorem length_allocated (h : ofRuns capacity existing runs pool = .ok packing) :
    packing.allocated.length = demand capacity runs := by
  rcases ofRuns_eq_ok.mp h with ⟨state, hstate, rfl⟩
  show state.allocated.reverse.length = _
  rw [List.length_reverse, Assignment.length_allocated_foldlM hstate]
  exact Nat.zero_add _

/-- What a packing of runs decides. -/
structure Packs (capacity : Nat) (runs : List Run) (pool : Pool) (packing : Packing) :
    Prop where
  linked : Linked packing.chain
  postings : chainPostings packing.chain = runPostings runs
  fits : ∀ stored ∈ packing.chain,
    stored.block.postings ≠ [] ∧ stored.block.postings.length ≤ capacity
  numbers : (chainIds packing.chain ++ packing.freed).Perm
    (Run.origins runs ++ packing.allocated)
  supply : pool.Takes packing.allocated.reverse packing.pool
  frugal : packing.allocated = [] ∨ packing.freed = []

theorem perm_numbers_of_balanced (hcapacity : 0 < capacity) {state : Assignment}
    (h : Assignment.Balanced (spare capacity runs) pool (packed capacity runs) state) :
    (state.ids.reverse ++ state.spare.reverse).Perm
      (Run.origins runs ++ state.allocated.reverse) := by
  let joined := Run.join capacity (runs.flatMap (Run.pieces capacity))
  have hsort : (spare capacity runs).Perm (Run.emptyOrigins runs ++ joined.released) :=
    Ascending.perm_sort _
  have hjoined : (Run.origins joined.runs ++ joined.released).Perm
      (Run.origins (runs.flatMap (Run.pieces capacity))) :=
    Run.accounted_join capacity _
  have hreverse : (Run.origins (packed capacity runs)).Perm (Run.origins joined.runs) :=
    (List.reverse_perm joined.runs).filterMap _
  calc
    (state.ids.reverse ++ state.spare.reverse).Perm (state.ids ++ state.spare) :=
      (List.reverse_perm _).append (List.reverse_perm _)
    List.Perm _ (Run.origins (packed capacity runs) ++ spare capacity runs ++
        state.allocated) :=
      h.numbers
    List.Perm _ (Run.origins joined.runs ++
        (joined.released ++ Run.emptyOrigins runs) ++ state.allocated) :=
      (hreverse.append (hsort.trans List.perm_append_comm)).append_right _
    List.Perm _ (Run.origins (runs.flatMap (Run.pieces capacity)) ++
        Run.emptyOrigins runs ++ state.allocated) := by
      rw [← List.append_assoc]
      exact (hjoined.append_right _).append_right _
    List.Perm _ (Run.origins runs ++ state.allocated.reverse) :=
      (Run.origins_flatMap_pieces hcapacity runs).append (List.reverse_perm _).symm

theorem length_ids_of_ofRuns {state : Assignment}
    (h : Assignment.ofRuns (spare capacity runs) pool (packed capacity runs) = .ok state) :
    state.ids.reverse.length = ((packed capacity runs).map Run.postings).length := by
  rw [List.length_reverse, List.length_map]
  exact (Assignment.balanced_ofRuns h).each

theorem map_postings_ofRuns (h : ofRuns capacity existing runs pool = .ok packing) :
    packing.chain.map (fun stored => stored.block.postings) =
      (packed capacity runs).map Run.postings := by
  rcases ofRuns_eq_ok.mp h with ⟨state, hstate, rfl⟩
  exact map_postings_linked (length_ids_of_ofRuns hstate)

theorem packs_ofRuns (hcapacity : 0 < capacity)
    (h : ofRuns capacity existing runs pool = .ok packing) :
    Packs capacity runs pool packing := by
  have hparts := map_postings_ofRuns h
  rcases ofRuns_eq_ok.mp h with ⟨state, hstate, rfl⟩
  have hbalanced := Assignment.balanced_ofRuns hstate
  have hlength := length_ids_of_ofRuns hstate
  constructor
  · exact linked_linked hlength
  · calc
      chainPostings (linked state.ids.reverse ((packed capacity runs).map Run.postings))
          = ((packed capacity runs).map Run.postings).flatten := by
            rw [chainPostings, List.flatMap_def]
            exact congrArg List.flatten hparts
      _ = runPostings (packed capacity runs) := by
            rw [runPostings, List.flatMap_def]
      _ = runPostings (runs.flatMap (Run.pieces capacity)) := Run.runPostings_join _ _
      _ = runPostings runs := Run.runPostings_flatMap_pieces hcapacity runs
  · intro stored hmem
    have hpart : stored.block.postings ∈ (packed capacity runs).map Run.postings := by
      rw [← hparts]
      exact List.mem_map.mpr ⟨stored, hmem, rfl⟩
    rcases List.mem_map.mp hpart with ⟨run, hrun, heq⟩
    rw [← heq]
    apply Run.fitsBlock_join _ run (List.mem_reverse.mp hrun)
    intro piece hpiece
    rcases List.mem_flatMap.mp hpiece with ⟨source, _, hsource⟩
    exact Run.fitsBlock_of_mem_pieces hcapacity hsource
  · show (chainIds (linked state.ids.reverse ((packed capacity runs).map Run.postings)) ++
      state.spare.reverse).Perm (Run.origins runs ++ state.allocated.reverse)
    rw [chainIds_linked hlength]
    exact perm_numbers_of_balanced hcapacity hbalanced
  · show pool.Takes state.allocated.reverse.reverse state.pool
    rw [List.reverse_reverse]
    exact hbalanced.supply
  · show state.allocated.reverse = [] ∨ state.spare.reverse = []
    simpa using hbalanced.frugal

theorem mem_writes_iff (h : ofRuns capacity existing runs pool = .ok packing)
    (stored : StoredBlock) :
    stored ∈ packing.writes ↔
      stored ∈ packing.chain ∧ (contents existing)[stored.id]? ≠ some stored.block := by
  rcases ofRuns_eq_ok.mp h with ⟨state, _, rfl⟩
  simp [ofAssignment]

/-- What is written are the blocks of the new chain that the old one did not have. -/
theorem mem_writes_ofRuns (h : ofRuns capacity existing runs pool = .ok packing)
    (hdistinct : (chainIds existing).Nodup) {stored : StoredBlock} :
    stored ∈ packing.writes ↔ stored ∈ packing.chain ∧ stored ∉ existing := by
  rw [mem_writes_iff h, Ne, getElem?_contents hdistinct]

theorem writes_ofRuns_sublist (h : ofRuns capacity existing runs pool = .ok packing) :
    packing.writes.Sublist packing.chain := by
  rcases ofRuns_eq_ok.mp h with ⟨state, _, rfl⟩
  exact List.filter_sublist

theorem get?_of_mem_chain (h : ofRuns capacity existing runs pool = .ok packing)
    (hdistinct : (chainIds existing).Nodup)
    (hnumbers : (chainIds packing.chain ++ packing.freed).Nodup) {arena : Arena}
    (harena : ∀ stored ∈ existing, arena.get? stored.id = some stored.block)
    {stored : StoredBlock} (hmem : stored ∈ packing.chain) :
    ((arena.writeAll packing.writes).clearAll packing.freed).get? stored.id =
      some stored.block := by
  have hid : stored.id ∈ chainIds packing.chain := List.mem_map.mpr ⟨stored, hmem, rfl⟩
  rcases List.nodup_append.mp hnumbers with ⟨hchain, _, hapart⟩
  have hfreed : stored.id ∉ packing.freed :=
    fun hfreed => hapart stored.id hid stored.id hfreed rfl
  rw [Arena.get?_clearAll_of_not_mem hfreed]
  by_cases hold : stored ∈ existing
  · have hstored := harena stored hold
    rw [Arena.get?_writeAll_of_not_mem _ (Arena.get?_eq_some_lt hstored)]
    · exact hstored
    · -- A write under this number would be another block of the new chain.
      intro hwrite
      rcases List.mem_map.mp hwrite with ⟨other, hother, heq⟩
      rcases (mem_writes_ofRuns h hdistinct).mp hother with ⟨hnew, hnot⟩
      have hsame : other = stored := List.inj_on_of_nodup_map hchain hnew hmem heq
      exact hnot (hsame ▸ hold)
  · apply Arena.get?_writeAll_of_mem
    · exact hchain.sublist ((writes_ofRuns_sublist h).map _)
    · exact (mem_writes_ofRuns h hdistinct).mpr ⟨hmem, hold⟩

end Packing

end PostingIndex
