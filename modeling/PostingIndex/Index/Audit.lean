import PostingIndex.Index

/-!
# Auditing an index

An index is sound if every chain can be followed to its end, no block lies on
two chains or on a chain and among the free blocks, and every other block
number that was ever handed out is free.

## Contents

The audit, which fails at the first block where an index is not sound.
-/

namespace PostingIndex

namespace Index

/-- Claims the blocks of one chain, failing at a free or claimed one. -/
def claimAll (free : IdTree) (owner : Entity) (claimed : IdTree) :
    List StoredBlock -> Except IndexError IdTree
  | [] => .ok claimed
  | stored :: rest =>
      if free.contains stored.id then
        .error (.corruptChain stored.id (.freeInChain owner))
      else if claimed.contains stored.id then
        .error (.corruptChain stored.id (.sharedBlock owner))
      else
        claimAll free owner (claimed.insert stored.id) rest

def claimChain (index : Index) (free claimed : IdTree) (start : HeadTable.ChainHead) :
    Except IndexError IdTree := do
  let visited ← (index.walkFrom (some start.head)).result
  claimAll free start.entity claimed visited

def claimChains (index : Index) (free : IdTree) : Except IndexError IdTree :=
  index.heads.chains.foldlM (claimChain index free) ∅

def firstFrom? (test : Nat -> Bool) (first : Nat) : Nat -> Option Nat
  | 0 => none
  | count + 1 => if test first then some first else firstFrom? test (first + 1) count

def firstUnreachable? (index : Index) (free claimed : IdTree) : Option Nat :=
  firstFrom?
    (fun number =>
      let id := UInt32.ofNat number
      !claimed.contains id && !free.contains id)
    0 index.pool.numBlocks.toNat

def verify (index : Index) : Except IndexError Unit := do
  let numBlocks := index.pool.numBlocks
  if numBlocks < index.arena.count then
    throw (.corruptChain numBlocks .arenaTooLarge)
  match index.pool.free.ids.find? fun id => numBlocks ≤ id with
  | some id => throw (.corruptChain id .freeNeverAllocated)
  | none => pure ()
  let free := index.pool.free.tree
  let claimed ← index.claimChains free
  match index.firstUnreachable? free claimed with
  | some number => throw (.corruptChain (UInt32.ofNat number) .unreachable)
  | none => pure ()

end Index

end PostingIndex
