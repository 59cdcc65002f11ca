/-!
# Postings and blocks

The games that an entity appears in form its posting list.  The list is kept
in blocks of bounded size, and each block names the block that continues it.

## Contents

Postings, blocks, and the expansion of a posting list into plain game numbers.
-/

namespace PostingIndex

abbrev GameId := UInt32

abbrev BlockId := UInt32

/-- How many times an entity appears in one game. -/
structure Posting where
  game : GameId
  count : UInt32
deriving DecidableEq, Inhabited

/-- A piece of one posting list together with the link to the next piece. -/
structure Block where
  postings : List Posting := []
  next : Option BlockId := none
deriving DecidableEq, Inhabited

namespace Block

def empty : Block :=
  {}

def firstGame? (block : Block) : Option GameId :=
  block.postings.head?.map Posting.game

def lastGame? (block : Block) : Option GameId :=
  block.postings.getLast?.map Posting.game

end Block

/-- A block together with the number it is stored under. -/
structure StoredBlock where
  id : BlockId
  block : Block
deriving DecidableEq, Inhabited

namespace Posting

def games (postings : List Posting) : List GameId :=
  postings.map Posting.game

def appearances (postings : List Posting) : List GameId :=
  postings.flatMap fun posting => List.replicate posting.count.toNat posting.game

def gameList (expand : Bool) (postings : List Posting) : List GameId :=
  if expand then appearances postings else games postings

def total (postings : List Posting) : Nat :=
  (postings.map fun posting => posting.count.toNat).foldr (· + ·) 0

end Posting

end PostingIndex
