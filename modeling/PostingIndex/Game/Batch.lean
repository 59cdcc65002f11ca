import PostingIndex.Game
import PostingIndex.Index

/-!
# Batches of game changes

A batch turns changes of game headers into updates of entities.  Each entity
whose count differs in some game is updated once, with all games at a time.
Before the first update every entity is checked against the extent of its
catalogue, and every affected chain is followed to its end.

## Contents

The changes of each entity that a batch asks for, the checks that precede the
updates, and the run of a batch.
-/

namespace PostingIndex

/-- The changes that a batch asks for, by entity and then by game. -/
abbrev EntityChanges :=
  Std.TreeMap Entity Changes Entity.order

namespace EntityChanges

def set (changes : EntityChanges) (game : GameId) (entry : Entity × UInt32) :
    EntityChanges :=
  changes.insert entry.1 ((changes.getD entry.1 ∅).insert game entry.2)

def addGame (changes : EntityChanges) (change : GameChange) :
    Except IndexError EntityChanges := do
  let differences ← change.differences
  return differences.foldl (fun changes entry => changes.set change.game entry) changes

def ofBatch (batch : List GameChange) : Except IndexError EntityChanges :=
  batch.foldlM addGame ∅

end EntityChanges

structure ReachedExtent where
  type : EntityType
  known : UInt32

namespace Index

/-- Checks that one entity is known or next by the time its turn comes. -/
def checkReached (index : Index) (reached : Option ReachedExtent) (entity : Entity) :
    Except IndexError (Option ReachedExtent) := do
  let known ←
    match reached with
    | some extent =>
        if extent.type = entity.type then pure extent.known else index.known entity.type
    | none => index.known entity.type
  if known < entity.id then
    throw (.entityOutOfRange entity known)
  let next ← Checked.succ entity.id
  return some { type := entity.type, known := max known next }

def checkExtents (index : Index) (entities : List Entity) : Except IndexError Unit := do
  let _ ← entities.foldlM (checkReached index) none

def checkChains (index : Index) (entities : List Entity) : Except IndexError Unit :=
  entities.forM fun entity => do
    let _ ← index.chainLength entity

/-- What became of a batch, with the accounts of its updates latest first. -/
structure BatchRun where
  index : Index
  updates : List EntityUpdate := []
  stop : Option IndexError := none

def runUpdates (run : BatchRun) : List (Entity × Changes) -> BatchRun
  | [] => run
  | (entity, changes) :: rest =>
      match run.index.update entity changes with
      | .error error => { run with stop := some error }
      | .ok updated =>
          runUpdates
            { run with index := updated.index, updates := updated.update :: run.updates }
            rest

def prepare (index : Index) (batch : List GameChange) :
    Except IndexError EntityChanges := do
  let changes ← EntityChanges.ofBatch batch
  index.checkExtents changes.keys
  index.checkChains changes.keys
  return changes

def apply (index : Index) (batch : List GameChange) : BatchRun :=
  match index.prepare batch with
  | .error error => { index, stop := some error }
  | .ok changes => runUpdates { index } changes.toList

namespace BatchRun

def report (run : BatchRun) : List EntityUpdate :=
  run.updates.reverse

def updated (run : BatchRun) : List Entity :=
  run.report.map EntityUpdate.entity

def postingsChanged (run : BatchRun) : Nat :=
  (run.report.map EntityUpdate.changes).foldr (· + ·) 0

def result (run : BatchRun) : Except IndexError Index :=
  match run.stop with
  | some error => .error error
  | none => .ok run.index

def notices (run : BatchRun) (games : Nat) : List Notice :=
  run.report.map Notice.entityUpdated ++
    match run.stop with
    | some error => error.notices
    | none => [.batchApplied games run.updates.length]

end BatchRun

def addGame (index : Index) (game : GameId) (header : GameHeader) : BatchRun :=
  index.apply [{ game, new := some header }]

def removeGame (index : Index) (game : GameId) (header : GameHeader) : BatchRun :=
  index.apply [{ game, old := some header }]

def replaceGame (index : Index) (game : GameId) (old new : GameHeader) : BatchRun :=
  index.apply [{ game, old := some old, new := some new }]

end Index

end PostingIndex
