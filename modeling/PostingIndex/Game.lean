import PostingIndex.Checked

/-!
# Game headers

The header of a game refers to catalogued entities in several roles.  An entity
may occur in more than one role of a game, and it is counted once for each.

## Contents

Headers, the count of every entity that a header refers to, and the change of
a header by adding, editing or deleting a game.
-/

namespace PostingIndex

/-- The entities that the header of a game refers to. -/
structure GameHeader where
  white : Option EntityId := none
  black : Option EntityId := none
  whiteTeam : Option EntityId := none
  blackTeam : Option EntityId := none
  source : Option EntityId := none
  tournament : Option EntityId := none
  annotators : List EntityId := []
  tags : List EntityId := []
deriving DecidableEq, Inhabited

namespace GameHeader

def withPlayers (header : GameHeader) (white black : EntityId) : GameHeader :=
  { header with white := some white, black := some black }

def withTeams (header : GameHeader) (white black : EntityId) : GameHeader :=
  { header with whiteTeam := some white, blackTeam := some black }

def withSource (header : GameHeader) (id : EntityId) : GameHeader :=
  { header with source := some id }

def withTournament (header : GameHeader) (id : EntityId) : GameHeader :=
  { header with tournament := some id }

def withAnnotator (header : GameHeader) (id : EntityId) : GameHeader :=
  { header with annotators := header.annotators ++ [id] }

def withTag (header : GameHeader) (id : EntityId) : GameHeader :=
  { header with tags := header.tags ++ [id] }

def references (header : GameHeader) : List Entity :=
  let role (type : EntityType) (ids : List EntityId) : List Entity :=
    ids.map fun id => { type, id }
  role .player (header.white.toList ++ header.black.toList) ++
    role .team (header.whiteTeam.toList ++ header.blackTeam.toList) ++
    role .source header.source.toList ++
    role .tournament header.tournament.toList ++
    role .annotator header.annotators ++
    role .gameTag header.tags

end GameHeader

abbrev EntityCounts :=
  Std.TreeMap Entity UInt32 Entity.order

namespace EntityCounts

def add (counts : EntityCounts) (entity : Entity) : Except IndexError EntityCounts := do
  let count ← Checked.succ (counts.getD entity 0)
  return counts.insert entity count

def ofReferences (references : List Entity) : Except IndexError EntityCounts :=
  references.foldlM add ∅

end EntityCounts

namespace GameHeader

/-- How often a header refers to each entity. -/
def counts (header : GameHeader) : Except IndexError EntityCounts :=
  EntityCounts.ofReferences header.references

end GameHeader

/-- The header of one game before and after a step. -/
structure GameChange where
  game : GameId
  old : Option GameHeader := none
  new : Option GameHeader := none
deriving DecidableEq, Inhabited

namespace GameChange

def countsOf (header? : Option GameHeader) : Except IndexError EntityCounts :=
  match header? with
  | some header => header.counts
  | none => .ok ∅

def differing (old new : EntityCounts) : List (Entity × UInt32) :=
  new.toList.filter (fun entry => old[entry.1]? != some entry.2) ++
    (old.keys.filter fun entity => !new.contains entity).map fun entity => (entity, 0)

def differences (change : GameChange) : Except IndexError (List (Entity × UInt32)) := do
  let old ← countsOf change.old
  let new ← countsOf change.new
  return differing old new

end GameChange

end PostingIndex
