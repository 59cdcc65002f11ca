import PostingIndex.Chain.Routing
import PostingIndex.Pool

/-!
# Packing runs into blocks

After a merge the runs of a chain may have grown too long or become short.
Packing splits long runs evenly, joins neighbours that fit one block, and drops
empty runs.  A run keeps the block it came from.  A run without one takes the
least block that this chain no longer uses, and only then one from the pool.

## Contents

Splitting, joining, the choice of block numbers, and the packing as a whole.
-/

namespace PostingIndex

/-!
## Splitting and joining
-/

def evenPartsOnto (done : List (List α)) : Nat -> Nat -> List α -> List (List α)
  | 0, _, _ => done.reverse
  | pieces + 1, length, items =>
      let size := (length + pieces) / (pieces + 1)
      evenPartsOnto (items.take size :: done) pieces (length - size) (items.drop size)

/-- Cuts a list into parts whose lengths differ by at most one. -/
def evenParts (pieces : Nat) (items : List α) : List (List α) :=
  evenPartsOnto [] pieces items.length items

namespace Run

/-- The least number of blocks of a capacity that hold so many postings. -/
def blocksFor (capacity length : Nat) : Nat :=
  (length + (capacity - 1)) / capacity

/--
The pieces of a run that fit into a block each.  The first piece keeps the
origin of the run.
-/
def pieces (capacity : Nat) (run : Run) : List Run :=
  if run.postings.isEmpty then
    []
  else if run.postings.length ≤ capacity then
    [run]
  else
    match evenParts (blocksFor capacity run.postings.length) run.postings with
    | [] => []
    | first :: rest =>
        { run with postings := first } ::
          rest.map fun part => { origin := none, postings := part }

def emptyOrigins (runs : List Run) : List BlockId :=
  runs.filterMap fun run => if run.postings.isEmpty then run.origin else none

/-- Runs joined so far, latest first, and the origins that joining gave up. -/
structure Joined where
  runs : List Run := []
  released : List BlockId := []

def append (left right : Run) : Run :=
  { origin := left.origin.or right.origin
    postings := left.postings ++ right.postings }

def Joined.add (capacity : Nat) (joined : Joined) (run : Run) : Joined :=
  match joined.runs with
  | [] => { joined with runs := [run] }
  | last :: earlier =>
      if last.postings.length + run.postings.length ≤ capacity then
        { runs := last.append run :: earlier
          released :=
            if last.origin.isSome then
              run.origin.toList ++ joined.released
            else
              joined.released }
      else
        { joined with runs := run :: last :: earlier }

def join (capacity : Nat) (runs : List Run) : Joined :=
  runs.foldl (Joined.add capacity) {}

end Run

/-!
## Choosing block numbers
-/

/-- The numbers chosen for runs and those taken from the pool for it, both latest first. -/
structure Assignment where
  ids : List BlockId := []
  spare : List BlockId
  pool : Pool
  allocated : List BlockId := []

namespace Assignment

/-- Chooses the number of one run: its origin, a spare number, or a new one. -/
def choose (state : Assignment) (run : Run) : Except IndexError Assignment :=
  match run.origin with
  | some id => .ok { state with ids := id :: state.ids }
  | none =>
      match state.spare with
      | id :: spare => .ok { state with ids := id :: state.ids, spare }
      | [] => do
          let (id, pool) ← state.pool.allocate
          return {
            ids := id :: state.ids
            spare := []
            pool
            allocated := id :: state.allocated }

def ofRuns (spare : List BlockId) (pool : Pool) (runs : List Run) :
    Except IndexError Assignment :=
  runs.foldlM choose { spare, pool }

end Assignment

/-!
## The packing
-/

/-- What packing a chain decided. -/
structure Packing where
  chain : List StoredBlock
  writes : List StoredBlock
  allocated : List BlockId
  freed : List BlockId
  pool : Pool
deriving DecidableEq

namespace Packing

def head (packing : Packing) : Option BlockId :=
  packing.chain.head?.map StoredBlock.id

def linked (ids : List BlockId) (parts : List (List Posting)) : List StoredBlock :=
  List.zipWith (fun id block => { id, block }) ids
    (List.zipWith (fun postings next => { postings, next }) parts
      ((ids.drop 1).map some ++ [none]))

def contents (existing : List StoredBlock) : Std.TreeMap BlockId Block :=
  existing.foldl (fun blocks stored => blocks.insert stored.id stored.block) ∅

/-- Packs runs that take the place of the existing chain. -/
def ofRuns (capacity : Nat) (existing : List StoredBlock) (runs : List Run)
    (pool : Pool) : Except IndexError Packing := do
  let joined := Run.join capacity (runs.flatMap (Run.pieces capacity))
  let packed := joined.runs.reverse
  let spare := Ascending.sort (Run.emptyOrigins runs ++ joined.released)
  let assignment ← Assignment.ofRuns spare pool packed
  let chain := linked assignment.ids.reverse (packed.map Run.postings)
  let before := contents existing
  return {
    chain
    writes := chain.filter fun stored => before[stored.id]? != some stored.block
    allocated := assignment.allocated.reverse
    freed := assignment.spare.reverse
    pool := assignment.pool }

end Packing

end PostingIndex
