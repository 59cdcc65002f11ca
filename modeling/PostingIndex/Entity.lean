import Std.Data.TreeMap

/-!
# Catalogued entities

A chess database keeps a catalogue of players, sources, tournaments and so on
beside its games.  Every entity is addressed by its catalogue and by a number
within it, and the numbers of one catalogue are handed out in order from zero.

## Contents

The six catalogues with their numeric tags and names, the addresses of single
entities, and the order by tag and then by number in which reports list them.
-/

namespace PostingIndex

abbrev EntityId := UInt32

/-- The catalogue that an entity belongs to. -/
inductive EntityType where
  | player
  | source
  | tournament
  | annotator
  | team
  | gameTag
deriving DecidableEq, Inhabited

namespace EntityType

def all : List EntityType :=
  [player, source, tournament, annotator, team, gameTag]

def tag : EntityType -> UInt8
  | player => 0
  | source => 1
  | tournament => 2
  | annotator => 3
  | team => 4
  | gameTag => 5

def ofTag? (byte : UInt8) : Option EntityType :=
  all.find? fun entityType => entityType.tag == byte

def name : EntityType -> String
  | player => "player"
  | source => "source"
  | tournament => "tournament"
  | annotator => "annotator"
  | team => "team"
  | gameTag => "game_tag"

def ofExactName? (text : String) : Option EntityType :=
  all.find? fun entityType => entityType.name == text

/--
Reads a name in any mixture of upper and lower case.  Two short spellings of
the tag catalogue are accepted as well.  The names hold no letter that a
character outside ASCII folds to, so folding ASCII letters is enough.
-/
def ofName? (text : String) : Option EntityType :=
  let folded := text.toLower
  if folded == "gametag" || folded == "tag" then
    some gameTag
  else
    ofExactName? folded

theorem mem_all (entityType : EntityType) : entityType ∈ all := by
  cases entityType <;> decide

@[simp]
theorem ofTag?_tag (entityType : EntityType) :
    ofTag? entityType.tag = some entityType := by
  cases entityType <;> rfl

theorem tag_inj {a b : EntityType} (h : a.tag = b.tag) : a = b := by
  simpa using congrArg ofTag? h

@[simp]
theorem ofExactName?_name (entityType : EntityType) :
    ofExactName? entityType.name = some entityType := by
  cases entityType <;> decide

end EntityType

/-- The address of one entity. -/
structure Entity where
  type : EntityType
  id : EntityId
deriving DecidableEq, Inhabited

namespace Entity

def order (a b : Entity) : Ordering :=
  (compare a.type.tag b.type.tag).then (compare a.id b.id)

def label (entity : Entity) : String :=
  s!"{entity.type.name} {entity.id}"

theorem order_eq_compareLex :
    order = compareLex (compareOn fun e => e.type.tag) (compareOn fun e => e.id) := by
  rfl

instance : Std.TransCmp order := by
  rw [order_eq_compareLex]
  infer_instance

instance : Std.LawfulEqCmp order where
  eq_of_compare := by
    intro a b h
    have hparts : compare a.type.tag b.type.tag = .eq ∧ compare a.id b.id = .eq := by
      simpa [order, Ordering.then_eq_eq] using h
    cases a with
    | mk atype aid =>
        cases b with
        | mk btype bid =>
            have htype : atype = btype :=
              EntityType.tag_inj (Std.LawfulEqOrd.eq_of_compare hparts.left)
            have hid : aid = bid := Std.LawfulEqOrd.eq_of_compare hparts.right
            rw [htype, hid]

end Entity

end PostingIndex
