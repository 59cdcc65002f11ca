import PostingIndex.Proofs.PostingCounts
import PostingIndex.Proofs.TightChains

/-!
# Chains that changes leave as they are

A packed chain that has the counts which changes ask for already comes out of
routing and packing exactly as it went in.  Each block keeps its postings, since
the ranges that part the changes part the settled counts as well.  Nothing is
cut, since every block fits, and nothing is joined, since no two neighbours do.

## Contents

Runs of settled blocks, the packing of runs that fit and do not join, and the
packing of a settled chain.
-/

namespace PostingIndex

namespace Run

/-!
## Routing
-/

def ofStored (stored : StoredBlock) : Run :=
  { origin := some stored.id, postings := stored.block.postings }

theorem ofBlock_of_reflects {stored : StoredBlock} {changes : List Change}
    (hordered : Posting.Ordered stored.block.postings)
    (hchanges : Posting.AscendingChanges changes)
    (hreflects : Posting.Reflects stored.block.postings changes) :
    ofBlock stored changes = ofStored stored := by
  rw [ofBlock, Posting.merge_of_reflects hordered hchanges hreflects, ofStored]

theorem routeOnto_of_reflects {chain : List StoredBlock} {changes : List Change}
    (hfilled : ∀ stored ∈ chain, stored.block.postings ≠ [])
    (hordered : Posting.Ordered (chainPostings chain))
    (hchanges : Posting.AscendingChanges changes)
    (hreflects : Posting.Reflects (chainPostings chain) changes) :
    routeOnto [] chain changes = chain.map ofStored := by
  induction chain generalizing changes with
  | nil =>
      rfl
  | cons stored rest ih =>
      cases rest with
      | nil =>
          rw [chainPostings_cons, chainPostings_nil, List.append_nil] at hordered hreflects
          rw [routeOnto, ofBlock_of_reflects hordered hchanges hreflects]
          rfl
      | cons next rest =>
          cases hnext : next.block.postings with
          | nil =>
              exact absurd hnext (hfilled next (by simp))
          | cons posting postings =>
              rcases parted_at_next hnext hordered.ascending hchanges with ⟨hlower, hupper⟩
              rw [chainPostings_cons] at hordered hreflects
              rcases Posting.ordered_append.mp hordered with ⟨hleft, hright, _⟩
              rw [← List.takeWhile_append_dropWhile (p := fun change : Change =>
                change.1 < posting.game) (l := changes)] at hreflects
              -- The changes of this block find their games in it and in no later block.
              rcases hreflects.split hlower hupper with ⟨hhere, hbehind⟩
              rw [routeOnto_cons_cons hnext, List.map_cons,
                ofBlock_of_reflects hleft (hchanges.sublist (List.takeWhile_sublist _)) hhere,
                ih (fun other hmem => hfilled other (List.mem_cons_of_mem _ hmem)) hright
                  (hchanges.sublist (List.dropWhile_sublist _)) hbehind]

theorem pieces_of_fitsBlock {capacity : Nat} {run : Run} (h : run.FitsBlock capacity) :
    pieces capacity run = [run] := by
  simp [pieces, h.left, h.right]

theorem flatMap_pieces_of_fitsBlock {capacity : Nat} {runs : List Run}
    (h : ∀ run ∈ runs, run.FitsBlock capacity) :
    runs.flatMap (pieces capacity) = runs ∧ emptyOrigins runs = [] := by
  induction runs with
  | nil =>
      exact ⟨rfl, rfl⟩
  | cons run rest ih =>
      have hrun := h run List.mem_cons_self
      rcases ih fun other hmem => h other (List.mem_cons_of_mem _ hmem) with ⟨hrest, hempty⟩
      constructor
      · rw [List.flatMap_cons, pieces_of_fitsBlock hrun, hrest]
        rfl
      · rw [emptyOrigins_cons, hempty]
        simp [emptyOrigins, hrun.left]

theorem flatMap_pieces_route {capacity : Nat} {chain : List StoredBlock}
    {changes : List Change} (hsound : SoundChain capacity chain)
    (hchanges : Posting.AscendingChanges changes)
    (hreflects : Posting.Reflects (chainPostings chain) changes) :
    (route chain changes).flatMap (pieces capacity) = chain.map ofStored ∧
      emptyOrigins (route chain changes) = [] := by
  cases chain with
  | nil =>
      -- The run of an empty chain has no origin, and here it holds nothing.
      have hmerge := Posting.merge_of_reflects Posting.ordered_nil hchanges hreflects
      rw [route, hmerge]
      exact ⟨rfl, rfl⟩
  | cons stored rest =>
      have hfits : ∀ run ∈ (stored :: rest).map ofStored, run.FitsBlock capacity := by
        intro run hmem
        rcases List.mem_map.mp hmem with ⟨block, hblock, heq⟩
        rw [← heq]
        exact ⟨hsound.filled block hblock, hsound.fits block hblock⟩
      rcases flatMap_pieces_of_fitsBlock hfits with ⟨hpieces, hempty⟩
      rw [route, routeOnto_of_reflects hsound.filled hsound.ordered hchanges hreflects]
      · exact ⟨hpieces, hempty⟩
      · exact List.cons_ne_nil _ _

/-!
## Joining
-/

theorem foldl_add_of_crowded {capacity : Nat} {joined : Joined} {runs : List Run}
    (h : Crowded capacity (lengths (joined.runs.reverse ++ runs))) :
    runs.foldl (Joined.add capacity) joined =
      { joined with runs := runs.reverse ++ joined.runs } := by
  induction runs generalizing joined with
  | nil =>
      rfl
  | cons run rest ih =>
      -- The run joined last is a neighbour of the next one, so they do not fit.
      have hadd : joined.add capacity run = { joined with runs := run :: joined.runs } := by
        rcases joined with ⟨latest, released⟩
        cases latest with
        | nil =>
            rfl
        | cons last earlier =>
            simp only [Crowded, lengths, List.reverse_cons, List.append_assoc,
              List.singleton_append, List.map_append, List.map_cons] at h
            have hlt := (List.isChain_append_cons_cons.mp h).right.left
            simp only [Joined.add, Nat.not_le.mpr hlt, if_false]
      rw [List.foldl_cons, hadd, ih]
      · simp
      · simpa using h

theorem join_of_crowded {capacity : Nat} {runs : List Run}
    (h : Crowded capacity (lengths runs)) :
    join capacity runs = { runs := runs.reverse, released := [] } := by
  rw [join, foldl_add_of_crowded]
  · simp
  · exact h

end Run

/-!
## Block numbers
-/

theorem Assignment.foldlM_choose_ofStored (state : Assignment) (chain : List StoredBlock) :
    (chain.map Run.ofStored).foldlM choose state =
      .ok { state with ids := (chainIds chain).reverse ++ state.ids } := by
  induction chain generalizing state with
  | nil =>
      rfl
  | cons stored rest ih =>
      have hchoose : state.choose (Run.ofStored stored) =
          .ok { state with ids := stored.id :: state.ids } :=
        rfl
      rw [List.map_cons, List.foldlM_cons, hchoose, chainIds_cons, List.reverse_cons,
        List.append_assoc]
      exact ih _

namespace Packing

theorem linked_chainIds {chain : List StoredBlock} (h : Linked chain) :
    linked (chainIds chain) (chain.map fun stored => stored.block.postings) = chain := by
  induction chain with
  | nil =>
      rfl
  | cons stored rest ih =>
      rw [chainIds_cons, List.map_cons, linked_cons, ih h.right, ← chainHead_eq_head?,
        ← h.left]

/-- Packing a settled chain keeps every block and its number and asks for no other. -/
theorem ofRuns_of_reflects {capacity : Nat} {chain : List StoredBlock}
    {changes : List Change} (hsound : SoundChain capacity chain) (hlinked : Linked chain)
    (hdistinct : (chainIds chain).Nodup)
    (hcrowded : Crowded capacity (chainLengths chain))
    (hchanges : Posting.AscendingChanges changes)
    (hreflects : Posting.Reflects (chainPostings chain) changes) (pool : Pool) :
    ofRuns capacity chain (Run.route chain changes) pool =
      .ok { chain, writes := [], allocated := [], freed := [], pool } := by
  rcases Run.flatMap_pieces_route hsound hchanges hreflects with ⟨hpieces, hempty⟩
  have hjoin : Run.join capacity (chain.map Run.ofStored) =
      { runs := (chain.map Run.ofStored).reverse, released := [] } := by
    apply Run.join_of_crowded
    rw [Run.lengths, List.map_map]
    exact hcrowded
  have hassigned : Assignment.ofRuns [] pool (chain.map Run.ofStored) =
      .ok { ids := (chainIds chain).reverse, spare := [], pool, allocated := [] } := by
    rw [Assignment.ofRuns, Assignment.foldlM_choose_ofStored]
    simp
  have hchain : linked (chainIds chain) ((chain.map Run.ofStored).map Run.postings) =
      chain := by
    rw [List.map_map]
    exact linked_chainIds hlinked
  have hwrites : (chain.filter fun stored =>
      (contents chain)[stored.id]? != some stored.block) = [] := by
    rw [List.filter_eq_nil_iff]
    intro stored hmem
    simp [(getElem?_contents hdistinct).mpr hmem]
  have hspare : spare capacity (Run.route chain changes) = [] := by
    simp only [spare, hpieces, hempty, hjoin]
    rfl
  have hpacked : packed capacity (Run.route chain changes) = chain.map Run.ofStored := by
    simp only [packed, hpieces, hjoin, List.reverse_reverse]
  apply ofRuns_eq_ok.mpr
  rw [hspare, hpacked]
  refine ⟨_, hassigned, ?_⟩
  simp only [ofAssignment, List.reverse_reverse, hchain, hwrites, List.reverse_nil]

end Packing

end PostingIndex
