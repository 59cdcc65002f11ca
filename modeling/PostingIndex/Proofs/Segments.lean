import PostingIndex.Proofs.BlockNumbers

/-!
# The segments of a packed chain

Packing cuts the postings of all runs into segments, one for each block.  Where
runs came from blocks, the segment in which the first of them starts keeps its
block; every other number of the old chain is used elsewhere or freed.  Only the
blocks that are not as they were before are written.

## Contents

Postings marked with the origins of runs, what splitting and joining make of the
marks, the numbers of the runs with an origin, and the packing as a whole.
-/

namespace PostingIndex

namespace Run

/-!
## Marked postings
-/

/-- The postings of a run, the first of them marked with the origin of the run. -/
def marked (run : Run) : List (Posting × Option BlockId) :=
  match run.postings with
  | [] => []
  | first :: rest => (first, run.origin) :: rest.map fun posting => (posting, none)

def firstOrigin (segment : List (Posting × Option BlockId)) : Option BlockId :=
  segment.findSome? Prod.snd

@[simp]
theorem map_fst_marked (run : Run) : run.marked.map Prod.fst = run.postings := by
  unfold marked
  cases run.postings with
  | nil =>
      rfl
  | cons first rest =>
      simp [Function.comp_def]

theorem firstOrigin_marked {run : Run} (h : run.postings ≠ []) :
    firstOrigin run.marked = run.origin := by
  unfold marked firstOrigin
  cases hpostings : run.postings with
  | nil =>
      exact absurd hpostings h
  | cons first rest =>
      cases run.origin with
      | none =>
          simp [List.findSome?_map, Function.comp_def]
      | some id =>
          simp

theorem map_fst_flatMap_marked (runs : List Run) :
    (runs.flatMap marked).map Prod.fst = runPostings runs := by
  rw [List.map_flatMap, runPostings]
  simp

theorem flatMap_marked_ofParts (parts : List (List Posting)) :
    (parts.map fun part => { origin := none, postings := part }).flatMap marked =
      parts.flatten.map fun posting => (posting, none) := by
  induction parts with
  | nil =>
      rfl
  | cons part parts ih =>
      rw [List.map_cons, List.flatMap_cons, ih, List.flatten_cons, List.map_append]
      cases part with
      | nil =>
          rfl
      | cons first rest =>
          rfl

theorem flatMap_marked_pieces {capacity : Nat} (hcapacity : 0 < capacity) (run : Run) :
    (pieces capacity run).flatMap marked = run.marked := by
  by_cases h : run.postings = []
  · rw [pieces_empty h, marked, h]
    rfl
  · rcases pieces_eq hcapacity run h with ⟨first, rest, hflat, hparts, hpieces⟩
    rw [hpieces, List.flatMap_cons, flatMap_marked_ofParts]
    cases hfirst : first with
    | nil =>
        exact absurd hfirst (hparts first (by simp)).left
    | cons posting others =>
        rw [hfirst, List.flatten_cons, List.cons_append] at hflat
        simp [marked, ← hflat]

theorem flatMap_marked_flatMap_pieces {capacity : Nat} (hcapacity : 0 < capacity)
    (runs : List Run) :
    (runs.flatMap (pieces capacity)).flatMap marked = runs.flatMap marked := by
  rw [List.flatMap_assoc]
  exact List.flatMap_congr fun run _ => flatMap_marked_pieces hcapacity run

/-!
## Runs that cover segments
-/

/-- A run holds the postings of a segment and has the first origin in it. -/
structure Covers (run : Run) (segment : List (Posting × Option BlockId)) : Prop where
  postings : run.postings = segment.map Prod.fst
  origin : run.origin = firstOrigin segment

theorem covers_marked {run : Run} (h : run.postings ≠ []) : run.Covers run.marked where
  postings := (map_fst_marked run).symm
  origin := (firstOrigin_marked h).symm

theorem Covers.append {left right : Run} {first second : List (Posting × Option BlockId)}
    (hleft : left.Covers first) (hright : right.Covers second) :
    (left.append right).Covers (first ++ second) where
  postings := by
    rw [Run.append, hleft.postings, hright.postings, List.map_append]
  origin := by
    rw [Run.append, hleft.origin, hright.origin, firstOrigin, firstOrigin, firstOrigin,
      List.findSome?_append]

theorem exists_covers_add (capacity : Nat) {joined : Joined} {run : Run}
    {segments : List (List (Posting × Option BlockId))}
    (h : List.Forall₂ Covers joined.runs segments) (hrun : run.postings ≠ []) :
    ∃ after, List.Forall₂ Covers (joined.add capacity run).runs after ∧
      after.reverse.flatten = segments.reverse.flatten ++ run.marked := by
  rcases joined with ⟨runs, released⟩
  cases h with
  | nil =>
      exact ⟨[run.marked], .cons (covers_marked hrun) .nil, by simp⟩
  | @cons last segment earlier segments hlast hearlier =>
      by_cases hfits : last.postings.length + run.postings.length ≤ capacity
      · refine ⟨(segment ++ run.marked) :: segments, ?_, by simp⟩
        simp only [Joined.add, hfits, if_true]
        exact .cons (hlast.append (covers_marked hrun)) hearlier
      · refine ⟨run.marked :: segment :: segments, ?_, by simp⟩
        simp only [Joined.add, hfits, if_false]
        exact .cons (covers_marked hrun) (.cons hlast hearlier)

theorem exists_covers_foldl_add (capacity : Nat) {joined : Joined} {runs : List Run}
    {segments : List (List (Posting × Option BlockId))}
    (h : List.Forall₂ Covers joined.runs segments)
    (hruns : ∀ run ∈ runs, run.postings ≠ []) :
    ∃ after, List.Forall₂ Covers (runs.foldl (Joined.add capacity) joined).runs after ∧
      after.reverse.flatten = segments.reverse.flatten ++ runs.flatMap marked := by
  induction runs generalizing joined segments with
  | nil =>
      exact ⟨segments, h, by simp⟩
  | cons run runs ih =>
      rcases exists_covers_add capacity h (hruns run (by simp)) with ⟨middle, hmiddle, hflat⟩
      rcases ih hmiddle fun other hmem => hruns other (List.mem_cons_of_mem _ hmem) with
        ⟨after, hafter, hall⟩
      refine ⟨after, hafter, ?_⟩
      rw [hall, hflat, List.flatMap_cons, List.append_assoc]

/-- The packed runs cover the marked postings of all runs, segment by segment. -/
theorem exists_covers_join {capacity : Nat} (hcapacity : 0 < capacity) (runs : List Run) :
    ∃ segments, List.Forall₂ Covers
        (join capacity (runs.flatMap (pieces capacity))).runs.reverse segments ∧
      segments.flatten = runs.flatMap marked := by
  have hfilled : ∀ piece ∈ runs.flatMap (pieces capacity), piece.postings ≠ [] := by
    intro piece hmem
    rcases List.mem_flatMap.mp hmem with ⟨run, _, hpiece⟩
    exact (fitsBlock_of_mem_pieces hcapacity hpiece).left
  have hstart : List.Forall₂ Covers ({} : Joined).runs [] := .nil
  rcases exists_covers_foldl_add capacity hstart hfilled with ⟨segments, hcovers, hflat⟩
  refine ⟨segments.reverse, List.forall₂_reverse_iff.mpr hcovers, ?_⟩
  rw [hflat, flatMap_marked_flatMap_pieces hcapacity]
  rfl

end Run

/-!
## Runs that keep their numbers
-/

namespace Assignment

def Keeps (run : Run) (id : BlockId) : Prop :=
  ∀ origin ∈ run.origin, id = origin

theorem keeps_of_origin_eq_none {run : Run} (h : run.origin = none) (id : BlockId) :
    Keeps run id := by
  intro origin hmem
  rw [h] at hmem
  cases hmem

theorem forall₂_keeps_choose {earlier : List Run} {run : Run} {state after : Assignment}
    (h : List.Forall₂ Keeps earlier state.ids) (hchoose : state.choose run = .ok after) :
    List.Forall₂ Keeps (run :: earlier) after.ids := by
  rcases choose_eq_ok.mp hchoose with
    ⟨id, horigin, rfl⟩ | ⟨id, spare, horigin, _, rfl⟩ | ⟨id, pool, horigin, _, _, rfl⟩
  · refine .cons ?_ h
    intro origin hmem
    rw [horigin] at hmem
    exact Option.some.inj hmem
  · exact .cons (keeps_of_origin_eq_none horigin id) h
  · exact .cons (keeps_of_origin_eq_none horigin id) h

theorem forall₂_keeps_foldlM {earlier runs : List Run} {state after : Assignment}
    (h : List.Forall₂ Keeps earlier state.ids)
    (hruns : runs.foldlM choose state = .ok after) :
    List.Forall₂ Keeps (runs.reverse ++ earlier) after.ids := by
  induction runs generalizing earlier state with
  | nil =>
      cases hruns
      exact h
  | cons run runs ih =>
      rw [List.foldlM_cons, Outcome.bind_eq_ok] at hruns
      rcases hruns with ⟨between, hchoose, hrest⟩
      rw [List.reverse_cons, List.append_assoc]
      exact ih (forall₂_keeps_choose h hchoose) hrest

theorem forall₂_keeps_ofRuns {spare : List BlockId} {pool : Pool} {runs : List Run}
    {state : Assignment} (h : ofRuns spare pool runs = .ok state) :
    List.Forall₂ Keeps runs state.ids.reverse := by
  have hstart : List.Forall₂ Keeps [] ({ spare, pool } : Assignment).ids := .nil
  have hkeeps := forall₂_keeps_foldlM hstart h
  rw [List.append_nil] at hkeeps
  exact List.forall₂_reverse_iff.mp (by rwa [List.reverse_reverse])

theorem forall₂_origins {runs : List Run} {ids : List BlockId}
    {segments : List (List (Posting × Option BlockId))}
    (hcovers : List.Forall₂ Run.Covers runs segments) (hkeeps : List.Forall₂ Keeps runs ids) :
    List.Forall₂ (fun segment id => ∀ origin ∈ Run.firstOrigin segment, id = origin)
      segments ids := by
  induction hcovers generalizing ids with
  | nil =>
      cases hkeeps
      exact .nil
  | cons hcover _ ih =>
      cases hkeeps with
      | cons hkeep hrest =>
          refine .cons ?_ (ih hrest)
          rw [← hcover.origin]
          exact hkeep

end Assignment

/-!
## The packing as a whole
-/

namespace Packing

/-- A packing stores the postings of some runs in numbered segments. -/
structure Segmented (capacity : Nat) (existing : List StoredBlock) (runs : List Run)
    (packing : Packing) (ids : List BlockId)
    (segments : List (List (Posting × Option BlockId))) : Prop where
  each : ids.length = segments.length
  together : segments.flatten = runs.flatMap Run.marked
  postings : segments.flatten.map Prod.fst = runPostings runs
  fits : ∀ segment ∈ segments, segment ≠ [] ∧ segment.length ≤ capacity
  head : packing.head = ids.head?
  size : packing.chain.length = segments.length
  blocks : ∀ (place : Nat) id segment, ids[place]? = some id ->
    segments[place]? = some segment ->
      packing.chain[place]? = some
        { id, block := { postings := segment.map Prod.fst, next := ids[place + 1]? } }
  origins : List.Forall₂ (fun segment id => ∀ origin ∈ Run.firstOrigin segment, id = origin)
    segments ids
  distinct : (ids ++ packing.freed).Nodup
  numbers : (chainIds existing ++ packing.allocated).Perm (ids ++ packing.freed)
  frugal : packing.allocated = [] ∨ packing.freed = []
  writes : packing.writes = packing.chain.filter fun stored => stored ∉ existing

theorem getElem?_linked {ids : List BlockId} {parts : List (List Posting)} {place : Nat}
    {id : BlockId} {part : List Posting} (hid : ids[place]? = some id)
    (hpart : parts[place]? = some part) :
    (linked ids parts)[place]? =
      some { id, block := { postings := part, next := ids[place + 1]? } } := by
  induction place generalizing ids parts with
  | zero =>
      cases ids with
      | nil =>
          cases hid
      | cons first ids =>
          cases parts with
          | nil =>
              cases hpart
          | cons head parts =>
              cases hid
              cases hpart
              rw [linked_cons]
              simp [List.head?_eq_getElem?]
  | succ place ih =>
      cases ids with
      | nil =>
          cases hid
      | cons first ids =>
          cases parts with
          | nil =>
              cases hpart
          | cons head parts =>
              rw [linked_cons]
              exact ih hid hpart

variable {capacity : Nat} {existing : List StoredBlock} {runs : List Run} {pool : Pool}
  {packing : Packing}

theorem writes_ofRuns (h : ofRuns capacity existing runs pool = .ok packing)
    (hdistinct : (chainIds existing).Nodup) :
    packing.writes = packing.chain.filter fun stored => stored ∉ existing := by
  rcases ofRuns_eq_ok.mp h with ⟨state, _, rfl⟩
  apply List.filter_congr
  intro stored _
  by_cases hmem : stored ∈ existing
  · simp [hmem, (getElem?_contents hdistinct).mpr hmem]
  · have hne : (contents existing)[stored.id]? ≠ some stored.block :=
      fun heq => hmem ((getElem?_contents hdistinct).mp heq)
    simpa [hmem] using hne

theorem nodup_numbers (hcapacity : 0 < capacity)
    (h : ofRuns capacity existing runs pool = .ok packing)
    (hdistinct : (chainIds existing).Nodup)
    (hinUse : ∀ id ∈ chainIds existing, id < pool.numBlocks ∧ id ∉ pool.free)
    (hfree : pool.FreeWithin) : (chainIds existing ++ packing.allocated).Nodup := by
  have hsupply := (packs_ofRuns hcapacity h).supply
  refine List.nodup_append.mpr
    ⟨hdistinct, List.nodup_reverse.mp (hsupply.supplied hfree).distinct, ?_⟩
  intro id hid other hallocated heq
  rcases hinUse id hid with ⟨hlt, hused⟩
  rcases hsupply.drawn.unused id (List.mem_reverse.mpr (heq ▸ hallocated)) with
    hfound | ⟨hnew, _⟩
  · exact hused hfound
  · exact absurd hlt (UInt32.not_lt.mpr hnew)

theorem exists_segmented (hcapacity : 0 < capacity)
    (h : ofRuns capacity existing runs pool = .ok packing)
    (hdistinct : (chainIds existing).Nodup)
    (horigins : (Run.origins runs).Perm (chainIds existing))
    (hnumbers : (chainIds existing ++ packing.allocated).Nodup) :
    ∃ ids segments, Segmented capacity existing runs packing ids segments := by
  have hpacks := packs_ofRuns hcapacity h
  have hstored := map_postings_ofRuns h
  have hwrites := writes_ofRuns h hdistinct
  rcases ofRuns_eq_ok.mp h with ⟨state, hstate, rfl⟩
  rcases Run.exists_covers_join hcapacity runs with ⟨segments, hcovers, htogether⟩
  have hkeeps := Assignment.forall₂_keeps_ofRuns hstate
  have hparts : (packed capacity runs).map Run.postings = segments.map (List.map Prod.fst) := by
    rw [← List.forall₂_eq_eq_eq, List.forall₂_map_left_iff, List.forall₂_map_right_iff]
    exact hcovers.imp fun _ _ hcover => hcover.postings
  have hlength := length_ids_of_ofRuns hstate
  have hids : chainIds (linked state.ids.reverse ((packed capacity runs).map Run.postings)) =
      state.ids.reverse := chainIds_linked hlength
  have heach : state.ids.reverse.length = segments.length := by
    rw [hlength, hparts, List.length_map]
  refine ⟨state.ids.reverse, segments, ?_⟩
  constructor
  · exact heach
  · exact htogether
  · rw [htogether, Run.map_fst_flatMap_marked]
  · intro segment hmem
    have hpart : segment.map Prod.fst ∈ (packed capacity runs).map Run.postings :=
      hparts ▸ List.mem_map_of_mem hmem
    rw [← hstored] at hpart
    rcases List.mem_map.mp hpart with ⟨stored, hmem, heq⟩
    have hfits := hpacks.fits stored hmem
    rw [heq, List.length_map] at hfits
    exact ⟨fun hnil => hfits.left (by rw [hnil]; rfl), hfits.right⟩
  · show chainHead (linked state.ids.reverse ((packed capacity runs).map Run.postings)) = _
    rw [chainHead_eq_head?, hids]
  · show (linked state.ids.reverse ((packed capacity runs).map Run.postings)).length = _
    have hsize := congrArg List.length hids
    rw [chainIds, List.length_map] at hsize
    exact hsize.trans heach
  · intro place id segment hid hsegment
    apply getElem?_linked hid
    rw [hparts, List.getElem?_map, hsegment]
    rfl
  · exact Assignment.forall₂_origins hcovers hkeeps
  · rw [← hids]
    exact (hpacks.numbers.nodup_iff).mpr ((horigins.append_right _).nodup_iff.mpr hnumbers)
  · rw [← hids]
    exact (horigins.symm.append_right _).trans hpacks.numbers.symm
  · exact hpacks.frugal
  · exact hwrites

theorem postings_eq_ok_iff_ordered (hcapacity : 0 < capacity)
    (h : ofRuns capacity existing runs pool = .ok packing) {arena : Arena}
    (hstored : ∀ stored ∈ packing.chain, stored.id.toNat < arena.source.count ∧
      arena.source.load stored.id = .ok stored.block) :
    arena.source.postings capacity packing.head = .ok (runPostings runs) ↔
      Posting.Ordered (runPostings runs) := by
  have hpacks := packs_ofRuns hcapacity h
  constructor
  · intro hread
    rcases Outcome.map_eq_ok.mp hread with ⟨chain, hchain, heq⟩
    rw [← heq]
    exact (BlockSource.chain_eq_ok.mp hchain).right.right.ordered
  · intro hordered
    have hchain : arena.source.chain capacity packing.head = .ok packing.chain := by
      refine BlockSource.chain_eq_ok.mpr ⟨rfl, ⟨hpacks.linked, hstored⟩, ⟨?_, ?_, ?_⟩⟩
      · intro stored hmem
        exact (hpacks.fits stored hmem).left
      · intro stored hmem
        exact (hpacks.fits stored hmem).right
      · rw [hpacks.postings]
        exact hordered
    rw [BlockSource.postings, hchain, ← hpacks.postings]
    rfl

theorem lt_numBlocks_of_mem_writes (hcapacity : 0 < capacity)
    (h : ofRuns capacity existing runs pool = .ok packing)
    (hinUse : ∀ id ∈ chainIds existing, id < pool.numBlocks)
    (hfree : pool.FreeWithin) (horigins : (Run.origins runs).Perm (chainIds existing)) :
    ∀ stored ∈ packing.writes, stored.id < packing.pool.numBlocks := by
  intro stored hmem
  have hpacks := packs_ofRuns hcapacity h
  have hchain : stored.id ∈ chainIds packing.chain ++ packing.freed :=
    List.mem_append_left _
      (List.mem_map_of_mem ((writes_ofRuns_sublist h).subset hmem))
  rw [hpacks.numbers.mem_iff, (horigins.append_right _).mem_iff] at hchain
  rcases List.mem_append.mp hchain with hold | hnew
  · exact UInt32.lt_of_lt_of_le (hinUse _ hold) hpacks.supply.drawn.le_numBlocks
  · exact (hpacks.supply.supplied hfree).within _ (List.mem_reverse.mpr hnew)

/--
As long as the pool has numbers, packing stores all postings of the runs in segments
that fit a block each.  It keeps, frees or newly takes every number once, and writes
the blocks that have changed.  An arena that held the old chain holds the new one after
that, which is read back if links of 32 bits reach all of the arena.
-/
theorem ofRuns_conserves (hcapacity : 0 < capacity) (hdistinct : (chainIds existing).Nodup)
    (hinUse : ∀ id ∈ chainIds existing, id < pool.numBlocks ∧ id ∉ pool.free)
    (hfree : pool.FreeWithin) (horigins : (Run.origins runs).Perm (chainIds existing))
    (hroom : demand capacity runs ≤ pool.remaining) :
    ∃ packing, ofRuns capacity existing runs pool = .ok packing ∧
      (∃ ids segments, Segmented capacity existing runs packing ids segments) ∧
        ∀ arena : Arena, (∀ stored ∈ existing, arena.get? stored.id = some stored.block) ->
          let after := (arena.writeAll packing.writes).clearAll packing.freed
          (∀ stored ∈ packing.chain, after.get? stored.id = some stored.block) ∧
            (arena.size < 2 ^ 32 ->
              (after.source.postings capacity packing.head = .ok (runPostings runs) ↔
                Posting.Ordered (runPostings runs))) := by
  rcases exists_ofRuns hroom with ⟨packing, hpack⟩
  have hnumbers := nodup_numbers hcapacity hpack hdistinct hinUse hfree
  have hdisjoint : (chainIds packing.chain ++ packing.freed).Nodup := by
    rw [(packs_ofRuns hcapacity hpack).numbers.nodup_iff]
    exact (horigins.append_right _).nodup_iff.mpr hnumbers
  refine ⟨packing, hpack, exists_segmented hcapacity hpack hdistinct horigins hnumbers, ?_⟩
  intro arena harena after
  have hstored : ∀ stored ∈ packing.chain, after.get? stored.id = some stored.block :=
    fun stored hmem => get?_of_mem_chain hpack hdistinct hdisjoint harena hmem
  refine ⟨hstored, ?_⟩
  intro hsize
  have hafter : after.size < 2 ^ 32 := by
    rw [Arena.size_clearAll]
    exact Arena.size_writeAll_lt hsize (lt_numBlocks_of_mem_writes hcapacity hpack
      (fun id hmem => (hinUse id hmem).left) hfree horigins)
  exact postings_eq_ok_iff_ordered hcapacity hpack fun stored hmem =>
    stored_of_get? hafter (hstored stored hmem)

/--
Three blocks for two postings each, of which changes emptied the first and overfilled
the second.  The second segment gets the number of the emptied block, and the third
one keeps that of the short run behind it.
-/
theorem ofRuns_conserves_mixed :
    let posting (game : GameId) : Posting := { game, count := 1 }
    let existing : List StoredBlock :=
      [{ id := 5, block := { postings := [posting 1, posting 2], next := some 3 } },
        { id := 3, block := { postings := [posting 3, posting 4], next := some 0 } },
        { id := 0, block := { postings := [posting 9], next := none } }]
    let runs : List Run :=
      [{ origin := some 5, postings := [] },
        { origin := some 3, postings := [3, 4, 6, 7, 8].map posting },
        { origin := some 0, postings := [posting 9] }]
    ∃ packing, ofRuns 2 existing runs (Pool.ofParts 7 [1]) = .ok packing ∧
      ∃ ids segments, Segmented 2 existing runs packing ids segments := by
  intro posting existing runs
  have hinUse : ∀ id ∈ chainIds existing,
      id < (Pool.ofParts 7 [1]).numBlocks ∧ id ∉ (Pool.ofParts 7 [1]).free := by
    intro id hmem
    have hcases : id = 5 ∨ id = 3 ∨ id = 0 := by
      simpa [existing] using hmem
    rcases hcases with rfl | rfl | rfl
    · decide +kernel
    · decide +kernel
    · decide +kernel
  have hfree : (Pool.ofParts 7 [1]).FreeWithin := by
    intro id hmem
    have hids : (Pool.ofParts 7 [1]).free.ids = [1] := by decide +kernel
    have heq : id = 1 := List.mem_singleton.mp (hids ▸ hmem)
    rw [heq]
    decide +kernel
  have horigins : (Run.origins runs).Perm (chainIds existing) := by decide +kernel
  have hroom : demand 2 runs ≤ (Pool.ofParts 7 [1]).remaining := by decide +kernel
  rcases ofRuns_conserves (by decide) (by decide +kernel) hinUse hfree horigins hroom with
    ⟨packing, hpack, hsegmented, _⟩
  exact ⟨packing, hpack, hsegmented⟩

end Packing

end PostingIndex
