import PostingIndex.Config
import PostingIndex.HeadTable
import PostingIndex.Notice
import PostingIndex.Chain.Packing

/-!
# Indexes

An index maps every entity to its posting list.  It owns the head table where
the chains start, the arena that holds their blocks, and the pool from which
block numbers come.

## Contents

Indexes, building one, reading the posting list of an entity, and the update
that gives an entity new counts in some games.
-/

namespace PostingIndex

/-- A map from entities to posting lists, kept in chains of blocks. -/
structure Index where
  capacity : Nat
  pool : Pool
  heads : HeadTable
  arena : Arena
  usable : Config.fault? { types := heads.types, capacity } = none
deriving DecidableEq

namespace Index

/-!
## Building an index
-/

/-- The index with the given parts, whose chains nothing has checked yet. -/
def ofParts (capacity : Nat) (pool : Pool) (heads : HeadTable) (arena : Arena) :
    Except IndexError Index :=
  match usable : Config.fault? { types := heads.types, capacity } with
  | some fault => .error (.invalidConfig fault)
  | none => .ok { capacity, pool, heads, arena, usable }

def new (config : Config) : Except IndexError Index :=
  ofParts config.capacity Pool.empty (HeadTable.ofTypes config.types) Arena.empty

def config (index : Index) : Config :=
  { types := index.heads.types, capacity := index.capacity }

/-!
## Reading
-/

def walkFrom (index : Index) (head : Option BlockId) : Walk :=
  index.arena.source.walk index.capacity head

def chain (index : Index) (entity : Entity) : Except IndexError (List StoredBlock) := do
  let head ← index.heads.headOf entity
  (index.walkFrom head).result

def chainLength (index : Index) (entity : Entity) : Except IndexError Nat :=
  (index.chain entity).map List.length

/-- The posting list of an entity.  An entity beyond the extent has none. -/
def postings (index : Index) (entity : Entity) : Except IndexError (List Posting) :=
  (index.chain entity).map chainPostings

def games (index : Index) (expand : Bool) (entity : Entity) :
    Except IndexError (List GameId) :=
  (index.postings entity).map (Posting.gameList expand)

def known (index : Index) (type : EntityType) : Except IndexError UInt32 :=
  index.heads.known type

/-!
## Updating an entity
-/

structure Updated where
  index : Index
  update : EntityUpdate

def install (index : Index) (entity : Entity) (packing : Packing) :
    Except IndexError Index := do
  let pool ← packing.freed.foldlM Pool.release packing.pool
  return {
    capacity := index.capacity
    pool
    heads := (index.heads.extend entity).put entity packing.head
    arena := (index.arena.writeAll packing.writes).clearAll packing.freed
    usable := by simpa using index.usable }

/--
Gives an entity new counts in some games; count zero removes a game.  The entity
may be the next one of its catalogue, which makes it known.
-/
def update (index : Index) (entity : Entity) (changes : Changes) :
    Except IndexError Updated := do
  index.heads.checkExtent entity
  let chain ← index.chain entity
  let runs := Run.route chain changes.toList
  let packing ← Packing.ofRuns index.capacity chain runs index.pool
  let next ← index.install entity packing
  return {
    index := next
    update :=
      { entity
        changes := changes.size
        written := packing.writes.length
        allocated := packing.allocated.length
        freed := packing.freed.length } }

end Index

end PostingIndex
