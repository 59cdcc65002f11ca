import PostingIndex.Checked
import PostingIndex.IdSet

/-!
# The pool of block numbers

All chains of an index draw their blocks from one pool.  A number that one
chain gives back is the next to be handed out to any other, and the count of
numbers ever handed out never falls.  A pool whose count is the greatest 32-bit
number has no new number to hand out, and asking it for one aborts.

## Contents

Pools, handing out numbers and taking them back.
-/

namespace PostingIndex

/-- Which block numbers were ever handed out and which of them are free. -/
structure Pool where
  numBlocks : UInt32 := 0
  free : IdSet := IdSet.empty
deriving DecidableEq, Inhabited

namespace Pool

def empty : Pool :=
  {}

def ofParts (numBlocks : UInt32) (free : List BlockId) : Pool :=
  { numBlocks, free := IdSet.ofList free }

def allocate (pool : Pool) : Except IndexError (BlockId × Pool) :=
  match pool.free.takeLeast? with
  | some (id, free) => .ok (id, { pool with free })
  | none => do
      let numBlocks ← Checked.succ pool.numBlocks
      return (pool.numBlocks, { pool with numBlocks })

/--
Takes back a number that was handed out, and aborts at any other.  Taking one
back twice changes nothing.
-/
def release (pool : Pool) (id : BlockId) : Except IndexError Pool :=
  if id < pool.numBlocks then
    .ok { pool with free := pool.free.insert id }
  else
    .error (.aborted (.unallocated id))

def liveBlocks (pool : Pool) : Except IndexError Nat :=
  Checked.sub pool.numBlocks.toNat (UInt32.ofNat pool.free.size).toNat

end Pool

end PostingIndex
