import Mathlib.Data.List.Nodup
import Mathlib.Logic.ExistsUnique
import PostingIndex.Chain.ChangeList
import PostingIndex.Proofs.OrderedPostings

/-!
# Routing changes to the blocks of a chain

Every block of a chain covers a range of games, and the ranges follow one
another without gaps.  Merging each range on its own is therefore the same as
merging the whole posting list at once.

## Contents

The merge of two ranges that follow one another, the postings of routed runs, their
origins, and the shares of the changes that they take.
-/

namespace PostingIndex

def runPostings (runs : List Run) : List Posting :=
  runs.flatMap Run.postings

@[simp]
theorem runPostings_nil : runPostings [] = [] :=
  rfl

@[simp]
theorem runPostings_cons (run : Run) (runs : List Run) :
    runPostings (run :: runs) = run.postings ++ runPostings runs := by
  rw [runPostings, runPostings, List.flatMap_cons]

@[simp]
theorem runPostings_append (left right : List Run) :
    runPostings (left ++ right) = runPostings left ++ runPostings right :=
  List.flatMap_append

@[simp]
theorem chainPostings_nil : chainPostings [] = [] :=
  rfl

@[simp]
theorem chainPostings_cons (stored : StoredBlock) (rest : List StoredBlock) :
    chainPostings (stored :: rest) = stored.block.postings ++ chainPostings rest := by
  rw [chainPostings, chainPostings, List.flatMap_cons]

namespace Posting

theorem cut_append {left right : List Posting} {game : GameId}
    (h : ∀ posting ∈ right, game < posting.game) :
    (left ++ right).takeWhile (fun posting => posting.game < game) =
      left.takeWhile (fun posting => posting.game < game) ∧
    dropGame game ((left ++ right).dropWhile fun posting => posting.game < game) =
      dropGame game (left.dropWhile fun posting => posting.game < game) ++ right := by
  induction left with
  | nil =>
      cases right with
      | nil =>
          exact ⟨rfl, rfl⟩
      | cons posting rest =>
          have hlt := h posting List.mem_cons_self
          have hnot : ¬ posting.game < game := fun hgt =>
            UInt32.lt_irrefl _ (UInt32.lt_trans hlt hgt)
          have hne : posting.game ≠ game := (UInt32.ne_of_lt hlt).symm
          simp [hnot, dropGame, hne]
  | cons posting rest ih =>
      by_cases hlt : posting.game < game
      · simpa [hlt] using ih
      · by_cases heq : posting.game = game
        · simp [dropGame, heq]
        · simp [hlt, dropGame, heq]

/--
Merging range by range.  The changes of the left range stay below the right
postings, and those of the right range stay above the left postings.
-/
theorem merge_append {left right : List Posting} {lower upper : List Change}
    (hlower : ∀ change ∈ lower, ∀ posting ∈ right, change.1 < posting.game)
    (hupper : ∀ change ∈ upper, ∀ posting ∈ left, posting.game < change.1) :
    merge (left ++ right) (lower ++ upper) = merge left lower ++ merge right upper := by
  induction lower generalizing left with
  | nil =>
      cases upper with
      | nil =>
          simp [merge, mergeOnto]
      | cons change upper =>
          have hbelow : ∀ posting ∈ left, decide (posting.game < change.1) = true :=
            fun posting hmem => by simpa using hupper change List.mem_cons_self posting hmem
          rw [List.nil_append, merge_cons, merge_cons, List.takeWhile_append_of_pos hbelow,
            List.dropWhile_append_of_pos hbelow]
          simp [merge, mergeOnto]
  | cons change lower ih =>
      rcases @cut_append left right _ (hlower change List.mem_cons_self) with
        ⟨hbefore, hafter⟩
      rw [List.cons_append, merge_cons, merge_cons, hbefore, hafter, ih]
      · simp only [List.append_assoc]
      · exact fun later hmem => hlower later (List.mem_cons_of_mem _ hmem)
      · intro later hlater posting hmem
        have hsub := (dropGame_sublist change.1 _).trans (List.dropWhile_sublist
          (fun posting : Posting => posting.game < change.1) (l := left))
        exact hupper later hlater posting (hsub.subset hmem)

theorem le_of_mem_dropWhile {changes : List Change} (h : AscendingChanges changes)
    {game : GameId} {change : Change}
    (hmem : change ∈ changes.dropWhile fun change => change.1 < game) :
    game ≤ change.1 := by
  induction changes with
  | nil =>
      cases hmem
  | cons head rest ih =>
      by_cases hlt : head.1 < game
      · rw [List.dropWhile_cons_of_pos (by simpa using hlt)] at hmem
        exact ih (List.pairwise_cons.mp h).right hmem
      · rw [List.dropWhile_cons_of_neg (by simpa using hlt)] at hmem
        have hle : game ≤ head.1 := UInt32.not_lt.mp hlt
        rcases List.mem_cons.mp hmem with heq | hrest
        · exact heq ▸ hle
        · exact UInt32.le_trans hle
            (UInt32.le_of_lt ((List.pairwise_cons.mp h).left change hrest))

theorem lt_of_mem_takeWhile {changes : List Change} {game : GameId} {change : Change}
    (hmem : change ∈ changes.takeWhile fun change => change.1 < game) :
    change.1 < game := by
  have hall := List.all_takeWhile (p := fun change : Change => decide (change.1 < game))
    (l := changes)
  simpa using List.all_eq_true.mp hall change hmem

end Posting

namespace Run

theorem routeOnto_eq (done : List Run) (chain : List StoredBlock) (changes : List Change) :
    routeOnto done chain changes = done.reverse ++ routeOnto [] chain changes := by
  induction chain generalizing done changes with
  | nil =>
      simp [routeOnto]
  | cons stored rest ih =>
      cases rest with
      | nil =>
          simp [routeOnto]
      | cons next rest =>
          rw [routeOnto, ih, routeOnto, ih [_]]
          simp

theorem exists_covered (stored next : StoredBlock) (rest : List StoredBlock)
    (changes : List Change) :
    ∃ covered : Change -> Bool, routeOnto [] (stored :: next :: rest) changes =
      ofBlock stored (changes.takeWhile covered) ::
        routeOnto [] (next :: rest) (changes.dropWhile covered) := by
  rw [routeOnto, routeOnto_eq]
  exact ⟨_, rfl⟩

theorem routeOnto_cons_cons {stored next : StoredBlock} {rest : List StoredBlock}
    {changes : List Change} {posting : Posting} {postings : List Posting}
    (h : next.block.postings = posting :: postings) :
    routeOnto [] (stored :: next :: rest) changes =
      ofBlock stored (changes.takeWhile fun change => change.1 < posting.game) ::
        routeOnto [] (next :: rest)
          (changes.dropWhile fun change => change.1 < posting.game) := by
  have hfirst : next.block.firstGame? = some posting.game := by
    rw [Block.firstGame?, h, List.head?_cons, Option.map_some]
  rw [routeOnto, routeOnto_eq]
  simp only [hfirst, List.reverse_cons, List.reverse_nil, List.nil_append,
    List.singleton_append]

theorem map_origin_routeOnto (chain : List StoredBlock) (changes : List Change) :
    (routeOnto [] chain changes).map Run.origin =
      chain.map fun stored => some stored.id := by
  induction chain generalizing changes with
  | nil =>
      rfl
  | cons stored rest ih =>
      cases rest with
      | nil =>
          rfl
      | cons next rest =>
          rcases exists_covered stored next rest changes with ⟨covered, hcovered⟩
          rw [hcovered, List.map_cons, ih]
          rfl

/--
The first game of the next block parts the changes as it parts the postings: the
block takes changes below all later postings and leaves those above its own.
-/
theorem parted_at_next {stored next : StoredBlock} {rest : List StoredBlock}
    {changes : List Change} {posting : Posting} {postings : List Posting}
    (hnext : next.block.postings = posting :: postings)
    (hascending : (chainPostings (stored :: next :: rest)).Pairwise
      fun left right => left.game < right.game)
    (hchanges : Posting.AscendingChanges changes) :
    (∀ change ∈ changes.takeWhile (·.1 < posting.game),
      ∀ later ∈ chainPostings (next :: rest), change.1 < later.game) ∧
    ∀ change ∈ changes.dropWhile (·.1 < posting.game),
      ∀ earlier ∈ stored.block.postings, earlier.game < change.1 := by
  rw [chainPostings_cons] at hascending
  rcases List.pairwise_append.mp hascending with ⟨_, hright, hcross⟩
  have hfirst : posting ∈ chainPostings (next :: rest) := by
    simp [hnext]
  -- The first game of the next block bounds everything behind it.
  have hleast : ∀ later ∈ chainPostings (next :: rest), posting.game ≤ later.game := by
    intro later hlater
    rw [chainPostings_cons, hnext, List.cons_append] at hlater hright
    rcases List.mem_cons.mp hlater with heq | hmem
    · rw [heq]
      exact UInt32.le_refl _
    · exact UInt32.le_of_lt ((List.pairwise_cons.mp hright).left later hmem)
  constructor
  · intro change hmem later hlater
    exact UInt32.lt_of_lt_of_le (Posting.lt_of_mem_takeWhile hmem) (hleast later hlater)
  · intro change hmem earlier hearlier
    exact UInt32.lt_of_lt_of_le (hcross earlier hearlier posting hfirst)
      (Posting.le_of_mem_dropWhile hchanges hmem)

/-- Routing changes and merging each block is merging the whole posting list. -/
theorem runPostings_routeOnto {chain : List StoredBlock} {changes : List Change}
    (hchain : chain ≠ [])
    (hfilled : ∀ stored ∈ chain, stored.block.postings ≠ [])
    (hascending : (chainPostings chain).Pairwise fun left right => left.game < right.game)
    (hchanges : Posting.AscendingChanges changes) :
    runPostings (routeOnto [] chain changes) =
      Posting.merge (chainPostings chain) changes := by
  induction chain generalizing changes with
  | nil =>
      exact absurd rfl hchain
  | cons stored rest ih =>
      cases rest with
      | nil =>
          simp [routeOnto, ofBlock]
      | cons next rest =>
          cases hnext : next.block.postings with
          | nil =>
              exact absurd hnext (hfilled next (by simp))
          | cons posting postings =>
              rcases parted_at_next hnext hascending hchanges with ⟨hlower, hupper⟩
              rw [chainPostings_cons] at hascending
              have hright := (List.pairwise_append.mp hascending).right.left
              rw [routeOnto_cons_cons hnext, runPostings_cons, chainPostings_cons,
                ih (by simp) (fun other hmem => hfilled other (List.mem_cons_of_mem _ hmem))
                  hright (hchanges.sublist (List.dropWhile_sublist _))]
              have hmerge := Posting.merge_append hlower hupper
              rw [List.takeWhile_append_dropWhile] at hmerge
              rw [hmerge]
              rfl

theorem route_of_ne_nil {chain : List StoredBlock} (h : chain ≠ []) (changes : List Change) :
    route chain changes = routeOnto [] chain changes := by
  cases chain with
  | nil =>
      exact absurd rfl h
  | cons stored rest =>
      rfl

theorem runPostings_route {chain : List StoredBlock} {changes : List Change}
    (hfilled : ∀ stored ∈ chain, stored.block.postings ≠ [])
    (hascending : (chainPostings chain).Pairwise fun left right => left.game < right.game)
    (hchanges : Posting.AscendingChanges changes) :
    runPostings (route chain changes) = Posting.merge (chainPostings chain) changes := by
  by_cases hchain : chain = []
  · simp [hchain, route]
  · rw [route_of_ne_nil hchain]
    exact runPostings_routeOnto hchain hfilled hascending hchanges

/-!
## Origins and shares
-/

theorem map_origin_route (chain : List StoredBlock) (changes : List Change) :
    (route chain changes).map Run.origin =
      if chain = [] then [none] else chain.map fun stored => some stored.id := by
  split
  · next hchain =>
      rw [hchain, route]
      rfl
  · next hchain =>
      rw [route_of_ne_nil hchain, map_origin_routeOnto]

theorem filterMap_origin_route (chain : List StoredBlock) (changes : List Change) :
    (route chain changes).filterMap Run.origin = chain.map StoredBlock.id := by
  have h := congrArg (List.filterMap id) (map_origin_route chain changes)
  rw [List.filterMap_map] at h
  refine h.trans ?_
  cases chain with
  | nil =>
      rfl
  | cons stored rest =>
      rw [if_neg (List.cons_ne_nil _ _), List.filterMap_map]
      exact congrFun List.filterMap_eq_map _

theorem exists_shares_routeOnto {chain : List StoredBlock} (hchain : chain ≠ [])
    (changes : List Change) :
    ∃ shares : List (List Change), shares.length = chain.length ∧
      shares.flatten = changes ∧
        routeOnto [] chain changes = List.zipWith ofBlock chain shares := by
  induction chain generalizing changes with
  | nil =>
      exact absurd rfl hchain
  | cons stored rest ih =>
      cases rest with
      | nil =>
          exact ⟨[changes], rfl, by simp, rfl⟩
      | cons next rest =>
          rcases exists_covered stored next rest changes with ⟨covered, hcovered⟩
          rcases ih (List.cons_ne_nil _ _) (changes.dropWhile covered) with
            ⟨shares, hlength, hflatten, hroute⟩
          refine ⟨changes.takeWhile covered :: shares, by simp [hlength], ?_, ?_⟩
          · rw [List.flatten_cons, hflatten, List.takeWhile_append_dropWhile]
          · rw [hcovered, List.zipWith_cons_cons, hroute]

theorem existsUnique_place {α : Type _} {parts : List (List α)} (h : parts.flatten.Nodup)
    {item : α} (hmem : item ∈ parts.flatten) :
    ∃! place : Nat, ∃ part, parts[place]? = some part ∧ item ∈ part := by
  rcases List.mem_flatten.mp hmem with ⟨part, hpart, hitem⟩
  rcases List.getElem?_of_mem hpart with ⟨place, hplace⟩
  refine ⟨place, ⟨part, hplace, hitem⟩, ?_⟩
  rintro other ⟨otherPart, hother, hotherItem⟩
  have hdisjoint := List.pairwise_iff_getElem.mp (List.nodup_flatten.mp h).right
  rcases List.getElem?_eq_some_iff.mp hplace with ⟨hlt, rfl⟩
  rcases List.getElem?_eq_some_iff.mp hother with ⟨hotherLt, rfl⟩
  rcases Nat.lt_trichotomy other place with hless | heq | hmore
  · exact absurd hitem (hdisjoint other place hotherLt hlt hless hotherItem)
  · exact heq
  · exact absurd hotherItem (hdisjoint place other hlt hotherLt hmore hitem)

/--
Routing changes to the blocks of a chain and merging each block is the same as merging
the whole posting list.  The blocks hold postings, and the games ascend strictly through
the chain, as they do in every chain that a walk accepts.  There is one run for each
block, in order and with its number as origin, or a single run without origin for the
empty chain.  All runs together hold the merge of all postings with all changes, and
every change goes to exactly one block.
-/
theorem route_merges_whole_chain {chain : List StoredBlock}
    (hfilled : ∀ stored ∈ chain, stored.block.postings ≠ [])
    (hascending : (chainPostings chain).Pairwise fun left right => left.game < right.game)
    (changes : Changes) :
    (route chain changes.toList).map Run.origin =
        (if chain = [] then [none] else chain.map fun stored => some stored.id) ∧
      runPostings (route chain changes.toList) =
        Posting.merge (chainPostings chain) changes.toList ∧
      (chain = [] -> route chain changes.toList =
        [{ origin := none, postings := Posting.merge [] changes.toList }]) ∧
      (chain ≠ [] -> ∃ shares : List (List Change), shares.length = chain.length ∧
        route chain changes.toList = List.zipWith ofBlock chain shares ∧
        shares.flatten = changes.toList ∧
        ∀ change ∈ changes.toList,
          ∃! place : Nat, ∃ share, shares[place]? = some share ∧ change ∈ share) := by
  have hchanges := ascendingChanges_toList changes
  refine ⟨map_origin_route chain _, runPostings_route hfilled hascending hchanges, ?_, ?_⟩
  · rintro rfl
    rfl
  · intro hchain
    rcases exists_shares_routeOnto hchain changes.toList with
      ⟨shares, hlength, hflatten, hroute⟩
    have hnodup : shares.flatten.Nodup :=
      hflatten ▸ Ascending.nodup_of_key Prod.fst hchanges
    refine ⟨shares, hlength, (route_of_ne_nil hchain _).trans hroute, hflatten, ?_⟩
    intro change hmem
    exact existsUnique_place hnodup (hflatten ▸ hmem)

/--
A change below the first game, one between two blocks, one at the boundary that removes
its game, and one behind the last game.
-/
theorem route_merges_whole_chain_two_blocks :
    let chain : List StoredBlock := [
      { id := 7, block := {
          postings := [{ game := 10, count := 1 }, { game := 20, count := 1 }], next := some 3 } },
      { id := 3, block := { postings := [{ game := 30, count := 1 }] } }]
    let changes := Changes.ofList [(5, 1), (25, 2), (30, 0), (40, 1)]
    (∀ stored ∈ chain, stored.block.postings ≠ []) ∧
      ((chainPostings chain).Pairwise fun left right => left.game < right.game) ∧
      (route chain changes.toList).map Run.origin = [some 7, some 3] ∧
      runPostings (route chain changes.toList) =
        [{ game := 5, count := 1 }, { game := 10, count := 1 }, { game := 20, count := 1 },
          { game := 25, count := 2 }, { game := 40, count := 1 }] ∧
      ∃ shares : List (List Change), shares.length = 2 ∧
        shares.flatten = changes.toList ∧
          ∃! place : Nat, ∃ share, shares[place]? = some share ∧ (30, 0) ∈ share := by
  intro chain changes
  have hfilled : ∀ stored ∈ chain, stored.block.postings ≠ [] := by decide
  have hascending : (chainPostings chain).Pairwise
      fun left right => left.game < right.game := by decide
  rcases route_merges_whole_chain hfilled hascending changes with
    ⟨horigin, hpostings, _, hshares⟩
  rcases hshares (List.cons_ne_nil _ _) with ⟨shares, hlength, _, hflatten, honce⟩
  refine ⟨hfilled, hascending, horigin, hpostings.trans ?_, shares, hlength, hflatten, ?_⟩
  · decide +kernel
  · apply honce
    decide +kernel

end Run

end PostingIndex
