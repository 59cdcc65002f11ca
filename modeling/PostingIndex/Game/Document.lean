import PostingIndex.Game
import PostingIndex.Json.Tree

/-!
# Game changes in documents

## Contents

Reading catalogue names, game headers and lists of game changes from JSON.
-/

namespace PostingIndex

open Json (Tree)

/--
Reads a catalogue: its exact name, or an object whose one key is the name and
whose value is null.
-/
def EntityType.ofTree? : Tree -> Option EntityType
  | .string (some text) => ofExactName? (String.ofList text)
  | .object [(some key, .null)] => ofExactName? (String.ofList key)
  | _ => none

def EntityType.ofJson? (text : String) : Option EntityType :=
  (Tree.read? text).bind ofTree?

namespace GameHeader

def fieldNames : List String :=
  ["white", "black", "white_team", "black_team", "source", "tournament",
    "annotators", "tags"]

def ofTree? (tree : Tree) : Option GameHeader := do
  let fields ← tree.fields? fieldNames
  let single (name : String) : Option (Option EntityId) :=
    Tree.field? fields name none (Tree.optional? Tree.uint32?)
  let several (name : String) : Option (List EntityId) :=
    Tree.field? fields name [] (Tree.listOf? Tree.uint32?)
  return {
    white := ← single "white"
    black := ← single "black"
    whiteTeam := ← single "white_team"
    blackTeam := ← single "black_team"
    source := ← single "source"
    tournament := ← single "tournament"
    annotators := ← several "annotators"
    tags := ← several "tags" }

def ofJson? (text : String) : Option GameHeader :=
  (Tree.read? text).bind ofTree?

end GameHeader

namespace GameChange

def fieldNames : List String :=
  ["game_id", "old", "new"]

def ofTree? (tree : Tree) : Option GameChange := do
  let fields ← tree.fields? fieldNames
  let header (name : String) : Option (Option GameHeader) :=
    Tree.field? fields name none (Tree.optional? GameHeader.ofTree?)
  let game ← fields.lookup "game_id"
  return {
    game := ← game.uint32?
    old := ← header "old"
    new := ← header "new" }

def listOfJson? (text : String) : Option (List GameChange) :=
  (Tree.read? text).bind (Tree.listOf? ofTree?)

end GameChange

end PostingIndex
