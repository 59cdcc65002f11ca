import PostingIndex.Chain.Routing
import PostingIndex.Text.Blank
import PostingIndex.Text.Decimal
import PostingIndex.Text.Pieces

/-!
# Written lists of changes

Changes are written as games with their counts, such as `2:1, 3:0, 4:2`.

## Contents

Collecting changes by game, and reading a written list of them.
-/

namespace PostingIndex

namespace Changes

/-- Collects changes; a later change of the same game replaces an earlier one. -/
def ofList (changes : List Change) : Changes :=
  changes.foldl (fun changes change => changes.insert change.1 change.2) ∅

def parsePiece? (piece : List Char) : Option Change :=
  match Text.cutAt? ':' piece with
  | none => none
  | some (game, count) =>
      match Decimal.uint32? (Text.trim game), Decimal.uint32? (Text.trim count) with
      | some game, some count => some (game, count)
      | _, _ => none

def writtenPieces (text : List Char) : List (List Char) :=
  ((Text.pieces ',' text).map Text.trim).filter fun piece => !piece.isEmpty

def parse? (text : String) : Option Changes :=
  ((writtenPieces text.toList).mapM parsePiece?).map ofList

end Changes

end PostingIndex
