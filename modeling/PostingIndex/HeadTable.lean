import PostingIndex.Fault

/-!
# Head tables

A head table holds, for every entity of every configured catalogue, the first
block of its posting chain.  The length of a row is the extent of the
catalogue: entities are introduced one at a time, in the order of their numbers.

## Contents

Head tables, the rows that they hold for a catalogue, extents, and the chains
that start in a table.
-/

namespace PostingIndex

structure HeadRow where
  type : EntityType
  heads : Array (Option BlockId) := #[]
deriving DecidableEq, Inhabited

/-- The rows of all configured catalogues, in configured order. -/
structure HeadTable where
  rows : List HeadRow
deriving DecidableEq, Inhabited

namespace HeadTable

def ofTypes (types : List EntityType) : HeadTable :=
  { rows := types.map fun type => { type } }

def types (table : HeadTable) : List EntityType :=
  table.rows.map HeadRow.type

def heads? (table : HeadTable) (type : EntityType) :
    Option (Array (Option BlockId)) :=
  (table.rows.find? fun row => row.type = type).map HeadRow.heads

def heads (table : HeadTable) (type : EntityType) :
    Except IndexError (Array (Option BlockId)) :=
  match table.heads? type with
  | some heads => .ok heads
  | none => .error (.unknownType type)

/-- The number of known entities of a catalogue, cut to 32 bits. -/
def known (table : HeadTable) (type : EntityType) : Except IndexError UInt32 :=
  (table.heads type).map fun heads => UInt32.ofNat heads.size

/-- The head of an entity.  An entity beyond the extent has none. -/
def headOf (table : HeadTable) (entity : Entity) :
    Except IndexError (Option BlockId) :=
  (table.heads entity.type).map fun heads => heads[entity.id.toNat]?.join

/-- Fails if an entity is neither known nor the next one to become known. -/
def checkExtent (table : HeadTable) (entity : Entity) : Except IndexError Unit := do
  let known ← table.known entity.type
  if known < entity.id then
    .error (.entityOutOfRange entity known)

/-!
## Changing a table
-/

def mapRow (type : EntityType)
    (change : Array (Option BlockId) -> Array (Option BlockId)) :
    List HeadRow -> List HeadRow
  | [] => []
  | row :: rest =>
      if row.type = type then
        { row with heads := change row.heads } :: rest
      else
        row :: mapRow type change rest

def extendHeads (id : EntityId) (heads : Array (Option BlockId)) :
    Array (Option BlockId) :=
  if id.toNat = heads.size then heads.push none else heads

def extend (table : HeadTable) (entity : Entity) : HeadTable :=
  { rows := mapRow entity.type (extendHeads entity.id) table.rows }

def put (table : HeadTable) (entity : Entity) (head : Option BlockId) : HeadTable :=
  { rows := mapRow entity.type
      (fun heads => heads.setIfInBounds entity.id.toNat head) table.rows }

def ensureExtent (table : HeadTable) (entity : Entity) :
    Except IndexError HeadTable := do
  table.checkExtent entity
  return table.extend entity

def setHead (table : HeadTable) (entity : Entity) (head : Option BlockId) :
    Except IndexError HeadTable := do
  let heads ← table.heads entity.type
  if entity.id.toNat < heads.size then
    return table.put entity head
  else
    .error (.entityOutOfRange entity (UInt32.ofNat heads.size))

theorem map_type_mapRow (type : EntityType)
    (change : Array (Option BlockId) -> Array (Option BlockId))
    (rows : List HeadRow) :
    (mapRow type change rows).map HeadRow.type = rows.map HeadRow.type := by
  induction rows with
  | nil =>
      rfl
  | cons row rest ih =>
      by_cases h : row.type = type
      · simp [mapRow, h]
      · simp [mapRow, h, ih]

@[simp]
theorem types_extend (table : HeadTable) (entity : Entity) :
    (table.extend entity).types = table.types :=
  map_type_mapRow _ _ _

@[simp]
theorem types_put (table : HeadTable) (entity : Entity) (head : Option BlockId) :
    (table.put entity head).types = table.types :=
  map_type_mapRow _ _ _

@[simp]
theorem types_ofTypes (types : List EntityType) : (ofTypes types).types = types := by
  simp [ofTypes, HeadTable.types, Function.comp_def]

/-!
## Chains
-/

structure ChainHead where
  entity : Entity
  head : BlockId
deriving DecidableEq

def rowChains (row : HeadRow) : List ChainHead :=
  row.heads.toList.zipIdx.filterMap fun (head?, index) =>
    head?.map fun head =>
      { entity := { type := row.type, id := UInt32.ofNat index }, head }

def chains (table : HeadTable) : List ChainHead :=
  table.rows.flatMap rowChains

end HeadTable

end PostingIndex
