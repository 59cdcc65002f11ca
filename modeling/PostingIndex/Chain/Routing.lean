import PostingIndex.Chain

/-!
# Merging changes into a chain

A change gives one game a new count, and count zero takes the game out.  The
changes for a whole chain are routed to the blocks whose range of games covers
them, so that each block is merged on its own.

## Contents

Changes, the merge of changes into one posting list, and the runs that come
from merging changes into the blocks of a chain.
-/

namespace PostingIndex

/-- New counts by game, in ascending order of games. -/
abbrev Changes :=
  Std.TreeMap GameId UInt32

abbrev Change :=
  GameId × UInt32

/-- A stretch of postings and the block that it was read from, if any. -/
structure Run where
  origin : Option BlockId := none
  postings : List Posting
deriving DecidableEq

namespace Posting

def ofChange (change : Change) : List Posting :=
  if change.2 = 0 then [] else [{ game := change.1, count := change.2 }]

def dropGame (game : GameId) : List Posting -> List Posting
  | [] => []
  | posting :: rest => if posting.game = game then rest else posting :: rest

def mergeOnto (merged : List Posting) : List Posting -> List Change -> List Posting
  | postings, [] => merged.reverse ++ postings
  | postings, change :: changes =>
      let before := postings.takeWhile fun posting => posting.game < change.1
      let after := postings.dropWhile fun posting => posting.game < change.1
      mergeOnto (ofChange change ++ (before.reverse ++ merged))
        (dropGame change.1 after) changes

/--
Sets counts in a posting list.  Postings and changes are taken in the order in
which they are given; if both ascend by game, so does the result.
-/
def merge (postings : List Posting) (changes : List Change) : List Posting :=
  mergeOnto [] postings changes

theorem mergeOnto_eq (merged postings : List Posting) (changes : List Change) :
    mergeOnto merged postings changes = merged.reverse ++ merge postings changes := by
  induction changes generalizing merged postings with
  | nil =>
      simp [merge, mergeOnto]
  | cons change changes ih =>
      rw [merge, mergeOnto, mergeOnto, ih, ih (_ ++ _)]
      simp

theorem merge_cons (postings : List Posting) (change : Change)
    (changes : List Change) :
    merge postings (change :: changes) =
      postings.takeWhile (fun posting => posting.game < change.1) ++
        ((ofChange change).reverse ++
          merge (dropGame change.1
            (postings.dropWhile fun posting => posting.game < change.1)) changes) := by
  rw [merge, mergeOnto, mergeOnto_eq]
  simp

end Posting

namespace Run

def ofBlock (stored : StoredBlock) (changes : List Change) : Run :=
  { origin := some stored.id
    postings := Posting.merge stored.block.postings changes }

/--
Routes changes behind the finished runs `done`, which are given latest first.
A block takes the changes below the first game of the next block, and the last
block takes all that are left.
-/
def routeOnto (done : List Run) : List StoredBlock -> List Change -> List Run
  | [], _ => done.reverse
  | [last], changes => (ofBlock last changes :: done).reverse
  | stored :: next :: rest, changes =>
      let covered (change : Change) : Bool :=
        match next.block.firstGame? with
        | some game => change.1 < game
        | none => true
      routeOnto (ofBlock stored (changes.takeWhile covered) :: done) (next :: rest)
        (changes.dropWhile covered)

def route (chain : List StoredBlock) (changes : List Change) : List Run :=
  match chain with
  | [] => [{ postings := Posting.merge [] changes }]
  | _ => routeOnto [] chain changes

end Run

end PostingIndex
