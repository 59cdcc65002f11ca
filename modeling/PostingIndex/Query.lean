import PostingIndex.Index

/-!
# Queries

A search names entities.  The answer lists the games that refer to all of them
or to any of them, in ascending order.

## Contents

The numbers that ascending lists have in common or hold together, the sum of the
counts of a posting list, and the queries built from them.
-/

namespace PostingIndex

namespace Ascending

def commonOnto (found : List GameId) : List GameId -> List GameId -> List GameId
  | [], _ => found.reverse
  | left :: restLeft, right =>
      match right.dropWhile (· < left) with
      | [] => found.reverse
      | head :: restRight =>
          if head = left then
            commonOnto (left :: found) restLeft restRight
          else
            commonOnto found restLeft (head :: restRight)

def common (left right : List GameId) : List GameId :=
  commonOnto [] left right

/--
The numbers that a list has in common with all of several others.  Once none is
left, the other lists are not looked at.
-/
def commonToRest (found : List GameId) : List (List GameId) -> List GameId
  | [] => found
  | list :: rest =>
      if found.isEmpty then found else commonToRest (common found list) rest

/--
The numbers that all of several ascending lists have in common; none if there
are no lists.  The search starts from the shortest list.
-/
def commonToAll (lists : List (List GameId)) : List GameId :=
  match lists.mergeSort fun left right => left.length ≤ right.length with
  | [] => []
  | shortest :: rest => commonToRest shortest rest

def merged (lists : List (List GameId)) : List GameId :=
  (lists.flatten.mergeSort fun left right => left ≤ right).eraseReps

end Ascending

def Posting.tally (postings : List Posting) : UInt64 :=
  postings.foldl (fun sum posting => sum + posting.count.toUInt64) 0

namespace Index

def gameLists (index : Index) (entities : List Entity) :
    Except IndexError (List (List GameId)) :=
  entities.mapM fun entity => index.games false entity

def gamesWithAll (index : Index) (entities : List Entity) :
    Except IndexError (List GameId) :=
  (index.gameLists entities).map Ascending.commonToAll

def gamesWithAny (index : Index) (entities : List Entity) :
    Except IndexError (List GameId) :=
  (index.gameLists entities).map Ascending.merged

def appearanceCount (index : Index) (entity : Entity) : Except IndexError UInt64 :=
  (index.postings entity).map Posting.tally

end Index

end PostingIndex
