import PostingIndex.Fault

/-!
# Configurations

An index is built for a list of catalogues and a block capacity, both fixed for
its lifetime.

## Contents

Configurations, the default one, and the check that an index can be built.
-/

namespace PostingIndex

/-- What an index is built from. -/
structure Config where
  types : List EntityType := EntityType.all
  capacity : Nat := 126
deriving DecidableEq, Inhabited

namespace Config

/-- The largest capacity whose posting count still fits the field of a page. -/
def maxCapacity : Nat :=
  65535

def firstRepeated? (seen : List EntityType) :
    List EntityType -> Option EntityType
  | [] => none
  | entityType :: rest =>
      if entityType ∈ seen then
        some entityType
      else
        firstRepeated? (entityType :: seen) rest

def fault? (config : Config) : Option ConfigFault :=
  if config.types.isEmpty then
    some .noTypes
  else
    match firstRepeated? [] config.types with
    | some entityType => some (.repeatedType entityType)
    | none =>
        if config.capacity = 0 ∨ maxCapacity < config.capacity then
          some (.capacityOutOfRange config.capacity)
        else
          none

def validate (config : Config) : Except IndexError Unit :=
  match config.fault? with
  | some fault => .error (.invalidConfig fault)
  | none => .ok ()

end Config

end PostingIndex
