import PostingIndex.Arena

/-!
# Chains

The blocks of one posting list form a chain: each one names the next.  A chain
is sound if every link stays within the source, every block holds between one
posting and its capacity, no count is zero, and the games ascend strictly from
the first block to the last.

## Contents

The check of one block, the walk along a chain that stops at the first fault,
and what the walk reads from a sound chain.
-/

namespace PostingIndex

namespace Block

/--
Checks the postings of a block that follows a block whose last game is
`previous`.  The answer is the last game seen.
-/
def checkOrder : Option GameId -> List Posting -> Except ChainFault (Option GameId)
  | previous, [] => .ok previous
  | previous, posting :: rest =>
      if posting.count = 0 then
        .error (.zeroCount posting.game)
      else
        match previous with
        | none => checkOrder (some posting.game) rest
        | some last =>
            if posting.game ≤ last then
              .error (.outOfOrder posting.game last)
            else
              checkOrder (some posting.game) rest

def check (capacity : Nat) (previous : Option GameId) (block : Block) :
    Except ChainFault (Option GameId) :=
  if block.postings.isEmpty then
    .error .emptyBlock
  else if capacity < block.postings.length then
    .error (.overfull block.postings.length capacity)
  else
    checkOrder previous block.postings

end Block

/-- What following a chain came to. -/
structure Walk where
  visited : List StoredBlock
  stop : Option IndexError
deriving DecidableEq

namespace Walk

def result (walk : Walk) : Except IndexError (List StoredBlock) :=
  match walk.stop with
  | none => .ok walk.visited
  | some error => .error error

end Walk

namespace BlockSource

def follow (source : BlockSource) (capacity : Nat) :
    Nat -> List StoredBlock -> Option GameId -> Option BlockId -> Walk
  | _, visited, _, none => { visited := visited.reverse, stop := none }
  | fuel, visited, previous, some id =>
      let stopWith (error : IndexError) : Walk :=
        { visited := visited.reverse, stop := some error }
      if source.count ≤ id.toNat then
        stopWith (.corruptChain id (.linkBeyond source.count))
      else
        match fuel with
        | 0 => stopWith (.corruptChain id .cycle)
        | fuel + 1 =>
            match source.load id with
            | .error error => stopWith error
            | .ok block =>
                match block.check capacity previous with
                | .error fault => stopWith (.corruptChain id fault)
                | .ok last =>
                    follow source capacity fuel ({ id, block } :: visited)
                      last block.next

/-- Walks a chain from its head; no more steps are made than there are blocks. -/
def walk (source : BlockSource) (capacity : Nat) (head : Option BlockId) : Walk :=
  follow source capacity source.count [] none head

def chain (source : BlockSource) (capacity : Nat) (head : Option BlockId) :
    Except IndexError (List StoredBlock) :=
  (source.walk capacity head).result

end BlockSource

def chainPostings (chain : List StoredBlock) : List Posting :=
  chain.flatMap fun stored => stored.block.postings

namespace BlockSource

def postings (source : BlockSource) (capacity : Nat) (head : Option BlockId) :
    Except IndexError (List Posting) :=
  (source.chain capacity head).map chainPostings

end BlockSource

end PostingIndex
