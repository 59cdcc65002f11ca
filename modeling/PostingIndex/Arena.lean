import PostingIndex.Fault

/-!
# Arenas and block sources

Chains are followed through any source of blocks.  The arena is the source in
memory: a row of blocks, each at the place of its number.

## Contents

Block sources, arenas, and reading, writing and clearing the blocks of an arena.
-/

namespace PostingIndex

/-- Something from which blocks are loaded by number. -/
structure BlockSource where
  count : Nat
  load : BlockId -> Except IndexError Block

structure Arena where
  blocks : Array Block := #[]
deriving DecidableEq, Inhabited

namespace Arena

def empty : Arena :=
  {}

def size (arena : Arena) : Nat :=
  arena.blocks.size

/-- The number of addressable blocks, cut to 32 bits. -/
def count (arena : Arena) : UInt32 :=
  UInt32.ofNat arena.size

def get? (arena : Arena) (id : BlockId) : Option Block :=
  arena.blocks[id.toNat]?

def growTo (blocks : Array Block) (size : Nat) : Array Block :=
  blocks ++ Array.replicate (size - blocks.size) Block.empty

def write (arena : Arena) (id : BlockId) (block : Block) : Arena :=
  if id.toNat < arena.blocks.size then
    { blocks := arena.blocks.setIfInBounds id.toNat block }
  else
    { blocks := (growTo arena.blocks id.toNat).push block }

def writeAll (arena : Arena) (writes : List StoredBlock) : Arena :=
  writes.foldl (fun arena stored => arena.write stored.id stored.block) arena

def clear (arena : Arena) (id : BlockId) : Arena :=
  { blocks := arena.blocks.setIfInBounds id.toNat Block.empty }

def clearAll (arena : Arena) (ids : List BlockId) : Arena :=
  ids.foldl clear arena

def source (arena : Arena) : BlockSource where
  count := arena.count.toNat
  load id :=
    match arena.get? id with
    | some block => .ok block
    | none => .error (.corruptChain id .beyondArena)

end Arena

end PostingIndex
