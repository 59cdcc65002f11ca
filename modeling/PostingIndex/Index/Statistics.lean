import PostingIndex.Index

/-!
# Statistics of an index

## Contents

How many entities, postings and blocks an index holds, for each catalogue and
as a whole.
-/

namespace PostingIndex

structure TypeStatistics where
  type : EntityType
  known : UInt32
  nonEmpty : Nat
  postings : Nat
deriving DecidableEq

/-- The counters of an index. -/
structure Statistics where
  capacity : Nat
  types : List TypeStatistics
  totalPostings : Nat
  numBlocks : UInt32
  freeBlocks : UInt32
  liveBlocks : Nat
  longestChain : Nat
deriving DecidableEq

namespace Index

def typeChains (index : Index) (type : EntityType) :
    Except IndexError (List (List StoredBlock)) := do
  let heads ← index.heads.heads type
  (heads.toList.filterMap id).mapM fun head => (index.walkFrom (some head)).result

def typeStatistics (index : Index) (type : EntityType)
    (chains : List (List StoredBlock)) : Except IndexError TypeStatistics := do
  let known ← index.known type
  return {
    type
    known
    nonEmpty := chains.length
    postings := (chains.map fun chain => (chainPostings chain).length).foldr (· + ·) 0 }

def statistics (index : Index) : Except IndexError Statistics := do
  let chainsByType ← index.heads.types.mapM index.typeChains
  let types ← (index.heads.types.zip chainsByType).mapM fun (type, chains) =>
    index.typeStatistics type chains
  let liveBlocks ← index.pool.liveBlocks
  return {
    capacity := index.capacity
    types
    totalPostings := (types.map TypeStatistics.postings).foldr (· + ·) 0
    numBlocks := index.pool.numBlocks
    freeBlocks := UInt32.ofNat index.pool.free.size
    liveBlocks
    longestChain := (chainsByType.flatten.map List.length).foldl max 0 }

end Index

end PostingIndex
