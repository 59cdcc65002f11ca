import Mathlib.Algebra.GroupWithZero.Nat
import Mathlib.Data.List.Nodup
import PostingIndex.HeadTable
import PostingIndex.Proofs.Outcome

/-!
# Slots of a head table

A slot is the place of one entity in a head table.  A table is read and changed
slot by slot: introducing an entity and giving it a head changes what is found
in its own slot and nothing else.

## Contents

Slots, the head in a slot, the extent check, the change of one slot, and the
lists of all slots with a head and of all slots.
-/

namespace PostingIndex

/-- The place of an entity in a head table. -/
structure Slot where
  type : EntityType
  place : Nat
deriving DecidableEq

def Entity.slot (entity : Entity) : Slot :=
  { type := entity.type, place := entity.id.toNat }

theorem Entity.slot_inj {left right : Entity} (h : left.slot = right.slot) :
    left = right := by
  cases left
  cases right
  simp only [Entity.slot, Slot.mk.injEq, UInt32.toNat_inj] at h
  rw [h.left, h.right]

namespace HeadTable

def headAt (table : HeadTable) (slot : Slot) : Option BlockId :=
  match table.heads? slot.type with
  | some heads => heads[slot.place]?.join
  | none => none

def extent (table : HeadTable) (type : EntityType) : Nat :=
  match table.heads? type with
  | some heads => heads.size
  | none => 0

/-- The number of slots of a catalogue as it is reported, cut to 32 bits. -/
def reported (table : HeadTable) (type : EntityType) : UInt32 :=
  UInt32.ofNat (table.extent type)

theorem toNat_reported {table : HeadTable} {type : EntityType}
    (h : table.extent type < 2 ^ 32) : (table.reported type).toNat = table.extent type :=
  UInt32.toNat_ofNat_of_lt' h

theorem reported_le_extent (table : HeadTable) (type : EntityType) :
    (table.reported type).toNat ≤ table.extent type := by
  rw [reported, UInt32.toNat_ofNat']
  exact Nat.mod_le _ _

/-!
## Reading
-/

theorem heads?_eq_none {table : HeadTable} {type : EntityType} :
    table.heads? type = none ↔ type ∉ table.types := by
  simp [heads?, types, List.find?_eq_none]

theorem exists_heads? {table : HeadTable} {type : EntityType} (h : type ∈ table.types) :
    ∃ heads, table.heads? type = some heads := by
  cases hheads : table.heads? type with
  | none =>
      exact absurd h (heads?_eq_none.mp hheads)
  | some heads =>
      exact ⟨heads, rfl⟩

theorem heads_eq_ok {table : HeadTable} {type : EntityType}
    {heads : Array (Option BlockId)} :
    table.heads type = .ok heads ↔ table.heads? type = some heads := by
  unfold HeadTable.heads
  cases table.heads? type with
  | none =>
      simp
  | some found =>
      simp

theorem heads_of_not_mem {table : HeadTable} {type : EntityType} (h : type ∉ table.types) :
    table.heads type = .error (.unknownType type) := by
  rw [HeadTable.heads, heads?_eq_none.mpr h]

theorem known_of_mem {table : HeadTable} {type : EntityType} (h : type ∈ table.types) :
    table.known type = .ok (table.reported type) := by
  rcases exists_heads? h with ⟨heads, hheads⟩
  simp [known, HeadTable.heads, hheads, reported, extent, Except.map]

theorem known_of_not_mem {table : HeadTable} {type : EntityType}
    (h : type ∉ table.types) : table.known type = .error (.unknownType type) := by
  rw [known, heads_of_not_mem h]
  rfl

theorem headOf_of_mem {table : HeadTable} {entity : Entity}
    (h : entity.type ∈ table.types) :
    table.headOf entity = .ok (table.headAt entity.slot) := by
  rcases exists_heads? h with ⟨heads, hheads⟩
  simp [headOf, HeadTable.heads, hheads, headAt, Entity.slot, Except.map]

theorem headOf_of_not_mem {table : HeadTable} {entity : Entity}
    (h : entity.type ∉ table.types) :
    table.headOf entity = .error (.unknownType entity.type) := by
  rw [headOf, heads_of_not_mem h]
  rfl

theorem heads?_ofTypes (types : List EntityType) (type : EntityType) :
    (ofTypes types).heads? type = if type ∈ types then some #[] else none := by
  induction types with
  | nil =>
      rfl
  | cons first rest ih =>
      by_cases h : first = type
      · simp [ofTypes, heads?, h]
      · have hne : type ≠ first := fun heq => h heq.symm
        simpa [ofTypes, heads?, h, hne] using ih

theorem headAt_ofTypes (types : List EntityType) (slot : Slot) :
    (ofTypes types).headAt slot = none := by
  rw [headAt, heads?_ofTypes]
  by_cases h : slot.type ∈ types
  · simp [h]
  · simp [h]

theorem extent_ofTypes (types : List EntityType) (type : EntityType) :
    (ofTypes types).extent type = 0 := by
  rw [extent, heads?_ofTypes]
  by_cases h : type ∈ types
  · simp [h]
  · simp [h]

theorem mem_types_of_lt_extent {table : HeadTable} {type : EntityType} {place : Nat}
    (h : place < table.extent type) : type ∈ table.types := by
  by_contra hnot
  rw [extent, heads?_eq_none.mpr hnot] at h
  exact Nat.not_lt_zero _ h

theorem place_lt_extent {table : HeadTable} {slot : Slot} {id : BlockId}
    (h : table.headAt slot = some id) : slot.place < table.extent slot.type := by
  unfold headAt at h
  unfold extent
  cases hheads : table.heads? slot.type with
  | none =>
      rw [hheads] at h
      cases h
  | some heads =>
      rw [hheads] at h
      exact (Array.getElem?_eq_some_iff.mp (Option.join_eq_some_iff.mp h)).choose

theorem checkExtent_eq_ok {table : HeadTable} {entity : Entity} :
    table.checkExtent entity = .ok () ↔
      entity.type ∈ table.types ∧ entity.id ≤ table.reported entity.type := by
  by_cases h : entity.type ∈ table.types
  · by_cases hlt : table.reported entity.type < entity.id
    · simp [checkExtent, known_of_mem h, hlt, UInt32.not_le.mpr hlt]
    · simp [checkExtent, known_of_mem h, hlt, h, UInt32.not_lt.mp hlt]
  · simp [checkExtent, known_of_not_mem h, h]

theorem le_extent_of_checkExtent {table : HeadTable} {entity : Entity}
    (h : table.checkExtent entity = .ok ()) :
    entity.type ∈ table.types ∧ entity.id.toNat ≤ table.extent entity.type := by
  rcases checkExtent_eq_ok.mp h with ⟨hmem, hle⟩
  exact ⟨hmem, Nat.le_trans (UInt32.le_iff_toNat_le.mp hle) (table.reported_le_extent _)⟩

theorem checkExtent_of_lt {table : HeadTable} {entity : Entity}
    (h : entity.type ∈ table.types) (hlt : table.reported entity.type < entity.id) :
    table.checkExtent entity =
      .error (.entityOutOfRange entity (table.reported entity.type)) := by
  rw [checkExtent, known_of_mem h]
  exact if_pos hlt

theorem checkExtent_of_not_mem {table : HeadTable} {entity : Entity}
    (h : entity.type ∉ table.types) :
    table.checkExtent entity = .error (.unknownType entity.type) := by
  rw [checkExtent, known_of_not_mem h]
  rfl

theorem checkExtent_eq_error {table : HeadTable} {entity : Entity} {error : IndexError}
    (h : table.checkExtent entity = .error error) :
    error = .unknownType entity.type ∨
      error = .entityOutOfRange entity (table.reported entity.type) := by
  by_cases hmem : entity.type ∈ table.types
  · by_cases hlt : table.reported entity.type < entity.id
    · rw [checkExtent_of_lt hmem hlt] at h
      exact Or.inr (Except.error.inj h).symm
    · rw [checkExtent_eq_ok.mpr ⟨hmem, UInt32.not_lt.mp hlt⟩] at h
      cases h
  · rw [checkExtent_of_not_mem hmem] at h
    exact Or.inl (Except.error.inj h).symm

/-!
## Changing
-/

theorem find?_mapRow {type other : EntityType}
    {change : Array (Option BlockId) -> Array (Option BlockId)} {rows : List HeadRow} :
    ((mapRow type change rows).find? fun row => row.type = other).map HeadRow.heads =
      if other = type then
        ((rows.find? fun row => row.type = other).map HeadRow.heads).map change
      else
        (rows.find? fun row => row.type = other).map HeadRow.heads := by
  induction rows with
  | nil =>
      simp [mapRow]
  | cons row rest ih =>
      by_cases htype : row.type = type
      · by_cases hother : other = type
        · simp [mapRow, htype, hother]
        · have hne : type ≠ other := fun heq => hother heq.symm
          simp [mapRow, htype, hother, hne]
      · by_cases hrow : row.type = other
        · have hne : other ≠ type := fun heq => htype (hrow.trans heq)
          simp [mapRow, hrow, hne]
        · simpa [mapRow, htype, hrow] using ih

theorem heads?_extend (table : HeadTable) (entity : Entity) (type : EntityType) :
    (table.extend entity).heads? type =
      if type = entity.type then (table.heads? type).map (extendHeads entity.id)
      else table.heads? type :=
  find?_mapRow

def putAt (table : HeadTable) (slot : Slot) (head : Option BlockId) : HeadTable :=
  { rows := mapRow slot.type (fun heads => heads.setIfInBounds slot.place head) table.rows }

theorem put_eq_putAt (table : HeadTable) (entity : Entity) (head : Option BlockId) :
    table.put entity head = table.putAt entity.slot head :=
  rfl

@[simp]
theorem types_putAt (table : HeadTable) (slot : Slot) (head : Option BlockId) :
    (table.putAt slot head).types = table.types :=
  map_type_mapRow _ _ _

theorem heads?_putAt (table : HeadTable) (slot : Slot) (head : Option BlockId)
    (type : EntityType) :
    (table.putAt slot head).heads? type =
      if type = slot.type then
        (table.heads? type).map fun heads => heads.setIfInBounds slot.place head
      else
        table.heads? type :=
  find?_mapRow

theorem extent_putAt (table : HeadTable) (slot : Slot) (head : Option BlockId)
    (type : EntityType) : (table.putAt slot head).extent type = table.extent type := by
  unfold extent
  rw [heads?_putAt]
  cases table.heads? type with
  | none =>
      simp
  | some heads =>
      by_cases htype : type = slot.type
      · simp [htype]
      · simp [htype]

theorem headAt_putAt {table : HeadTable} {slot : Slot}
    (hslot : slot.place < table.extent slot.type) (head : Option BlockId) (other : Slot) :
    (table.putAt slot head).headAt other =
      if other = slot then head else table.headAt other := by
  rcases slot with ⟨type, place⟩
  rcases other with ⟨otherType, otherPlace⟩
  rw [headAt, heads?_putAt, headAt]
  by_cases htype : otherType = type
  · subst htype
    unfold extent at hslot
    cases hheads : table.heads? otherType with
    | none =>
        simp [hheads] at hslot
    | some heads =>
        simp only [hheads] at hslot
        by_cases hplace : otherPlace = place
        · simp [hplace, hslot]
        · have hne : place ≠ otherPlace := fun heq => hplace heq.symm
          simp [hplace, hne, Array.getElem?_setIfInBounds_ne]
  · simp [htype]

theorem size_extendHeads {id : EntityId} {heads : Array (Option BlockId)}
    (h : id.toNat ≤ heads.size) :
    (extendHeads id heads).size = max heads.size (id.toNat + 1) := by
  unfold extendHeads
  by_cases heq : id.toNat = heads.size
  · rw [if_pos heq, Array.size_push]
    omega
  · rw [if_neg heq]
    omega

theorem join_getElem?_extendHeads (id : EntityId) (heads : Array (Option BlockId))
    (place : Nat) : (extendHeads id heads)[place]?.join = heads[place]?.join := by
  unfold extendHeads
  by_cases heq : id.toNat = heads.size
  · rw [if_pos heq, Array.getElem?_push]
    by_cases hplace : place = heads.size
    · rw [if_pos hplace, hplace, Array.getElem?_eq_none (Nat.le_refl _)]
      rfl
    · rw [if_neg hplace]
  · rw [if_neg heq]

theorem headAt_extend (table : HeadTable) (entity : Entity) (slot : Slot) :
    (table.extend entity).headAt slot = table.headAt slot := by
  rw [headAt, heads?_extend, headAt]
  by_cases htype : slot.type = entity.type
  · rw [if_pos htype]
    cases table.heads? slot.type with
    | none =>
        rfl
    | some heads =>
        exact join_getElem?_extendHeads _ _ _
  · rw [if_neg htype]

theorem extent_extend {table : HeadTable} {entity : Entity}
    (hmem : entity.type ∈ table.types)
    (hle : entity.id.toNat ≤ table.extent entity.type) (type : EntityType) :
    (table.extend entity).extent type =
      if type = entity.type then max (table.extent type) (entity.id.toNat + 1)
      else table.extent type := by
  by_cases htype : type = entity.type
  · subst htype
    rcases exists_heads? hmem with ⟨heads, hheads⟩
    have hextent : table.extent entity.type = heads.size := by
      rw [extent, hheads]
    rw [if_pos rfl, hextent, ← size_extendHeads (hextent ▸ hle)]
    simp [extent, heads?_extend, hheads]
  · simp [extent, heads?_extend, htype]

theorem headAt_put_extend {table : HeadTable} {entity : Entity}
    (hmem : entity.type ∈ table.types)
    (hle : entity.id.toNat ≤ table.extent entity.type) (head : Option BlockId)
    (slot : Slot) :
    ((table.extend entity).put entity head).headAt slot =
      if slot = entity.slot then head else table.headAt slot := by
  have hslot : entity.slot.place < (table.extend entity).extent entity.slot.type := by
    show entity.id.toNat < (table.extend entity).extent entity.type
    rw [extent_extend hmem hle, if_pos rfl]
    omega
  rw [put_eq_putAt, headAt_putAt hslot, headAt_extend]

theorem extent_put_extend {table : HeadTable} {entity : Entity}
    (hmem : entity.type ∈ table.types)
    (hle : entity.id.toNat ≤ table.extent entity.type) (head : Option BlockId)
    (type : EntityType) :
    ((table.extend entity).put entity head).extent type =
      if type = entity.type then max (table.extent type) (entity.id.toNat + 1)
      else table.extent type := by
  rw [put_eq_putAt, extent_putAt, extent_extend hmem hle]

theorem mapRow_eq_self {type : EntityType}
    {change : Array (Option BlockId) -> Array (Option BlockId)} {rows : List HeadRow}
    (h : ∀ row ∈ rows.find? fun row => row.type = type, change row.heads = row.heads) :
    mapRow type change rows = rows := by
  induction rows with
  | nil =>
      rfl
  | cons row rest ih =>
      by_cases htype : row.type = type
      · rw [mapRow, if_pos htype, h row (by simp [htype])]
      · rw [mapRow, if_neg htype, ih]
        simpa [htype] using h

theorem mapRow_eq_self_of_heads? {table : HeadTable} {type : EntityType}
    {change : Array (Option BlockId) -> Array (Option BlockId)}
    (h : ∀ heads ∈ table.heads? type, change heads = heads) :
    mapRow type change table.rows = table.rows :=
  mapRow_eq_self fun row hrow => h row.heads (by simp [heads?, Option.mem_def.mp hrow])

theorem extend_of_lt {table : HeadTable} {entity : Entity}
    (h : entity.id.toNat < table.extent entity.type) : table.extend entity = table := by
  rw [extend, mapRow_eq_self_of_heads?]
  intro heads hheads
  rw [extent, Option.mem_def.mp hheads] at h
  rw [extendHeads, if_neg (Nat.ne_of_lt h)]

theorem putAt_headAt {table : HeadTable} {slot : Slot}
    (h : slot.place < table.extent slot.type) :
    table.putAt slot (table.headAt slot) = table := by
  rw [putAt, mapRow_eq_self_of_heads?]
  intro heads hheads
  rw [extent, Option.mem_def.mp hheads] at h
  have hhead : table.headAt slot = heads[slot.place] := by
    rw [headAt, Option.mem_def.mp hheads]
    simp [Array.getElem?_eq_getElem h]
  rw [hhead, Array.setIfInBounds, dif_pos h, Array.set_getElem_self]

theorem put_extend_headAt {table : HeadTable} {entity : Entity}
    (h : entity.id.toNat < table.extent entity.type) :
    (table.extend entity).put entity (table.headAt entity.slot) = table := by
  rw [extend_of_lt h, put_eq_putAt]
  exact putAt_headAt h

/-!
## All slots with a head
-/

def rowSlots (row : HeadRow) : List (Slot × BlockId) :=
  row.heads.toList.zipIdx.filterMap fun (head?, place) =>
    head?.map fun head => ({ type := row.type, place }, head)

def slots (table : HeadTable) : List (Slot × BlockId) :=
  table.rows.flatMap rowSlots

theorem chains_eq_map_slots (table : HeadTable) :
    table.chains = table.slots.map fun entry =>
      { entity := { type := entry.1.type, id := UInt32.ofNat entry.1.place }
        head := entry.2 } := by
  rw [chains, slots, List.map_flatMap]
  congr 1
  funext row
  rw [rowChains, rowSlots, List.map_filterMap]
  congr 1
  funext entry
  rcases entry with ⟨head?, place⟩
  cases head? with
  | none =>
      rfl
  | some head =>
      rfl

theorem mem_rowSlots {row : HeadRow} {slot : Slot} {head : BlockId} :
    (slot, head) ∈ rowSlots row ↔
      slot.type = row.type ∧ row.heads[slot.place]? = some (some head) := by
  rcases slot with ⟨type, place⟩
  simp only [rowSlots, List.mem_filterMap, Prod.exists, Option.map_eq_some_iff,
    Prod.mk.injEq, Slot.mk.injEq]
  constructor
  · intro h
    rcases h with ⟨head?, index, hmem, found, hfound, ⟨htype, hplace⟩, hhead⟩
    have hget := List.mk_mem_zipIdx_iff_getElem?.mp hmem
    subst hhead
    subst hplace
    exact ⟨htype.symm, by simpa [hfound] using hget⟩
  · intro h
    rcases h with ⟨htype, hget⟩
    refine ⟨some head, place, ?_, head, rfl, ⟨htype.symm, rfl⟩, rfl⟩
    exact List.mk_mem_zipIdx_iff_getElem?.mpr (by simpa using hget)

theorem heads?_eq_of_mem {table : HeadTable} (hdistinct : table.types.Nodup)
    {row : HeadRow} (hmem : row ∈ table.rows) : table.heads? row.type = some row.heads := by
  rcases table with ⟨rows⟩
  simp only [types] at hdistinct
  simp only [heads?]
  induction rows with
  | nil =>
      cases hmem
  | cons first rest ih =>
      rw [List.map_cons, List.nodup_cons] at hdistinct
      rcases List.mem_cons.mp hmem with heq | hmem
      · simp [heq]
      · have hne : first.type ≠ row.type := fun heq =>
          hdistinct.left (heq ▸ List.mem_map.mpr ⟨row, hmem, rfl⟩)
        simpa [hne] using ih hdistinct.right hmem

theorem mem_slots {table : HeadTable} (hdistinct : table.types.Nodup) {slot : Slot}
    {head : BlockId} : (slot, head) ∈ table.slots ↔ table.headAt slot = some head := by
  rw [slots, List.mem_flatMap]
  constructor
  · intro h
    rcases h with ⟨row, hrow, hmem⟩
    rcases mem_rowSlots.mp hmem with ⟨htype, hget⟩
    rw [headAt, htype, heads?_eq_of_mem hdistinct hrow]
    simp [hget]
  · intro h
    unfold headAt at h
    cases hheads : table.heads? slot.type with
    | none =>
        simp [hheads] at h
    | some heads =>
        rw [hheads] at h
        simp only [heads?, Option.map_eq_some_iff] at hheads
        rcases hheads with ⟨row, hfind, heq⟩
        have htype : row.type = slot.type := by
          simpa using List.find?_some hfind
        refine ⟨row, List.mem_of_find?_eq_some hfind, mem_rowSlots.mpr ⟨htype.symm, ?_⟩⟩
        rw [heq]
        exact Option.join_eq_some_iff.mp h

theorem nodup_slots {table : HeadTable} (hdistinct : table.types.Nodup) :
    table.slots.Nodup := by
  rcases table with ⟨rows⟩
  simp only [types] at hdistinct
  simp only [slots]
  induction rows with
  | nil =>
      exact List.nodup_nil
  | cons row rest ih =>
      rw [List.map_cons, List.nodup_cons] at hdistinct
      rw [List.flatMap_cons, List.nodup_append]
      refine ⟨?_, ih hdistinct.right, ?_⟩
      · have hplaces : (row.heads.toList.zipIdx).Pairwise fun left right =>
            left.2 ≠ right.2 := by
          have hnodup : (row.heads.toList.zipIdx.map Prod.snd).Nodup := by
            rw [List.zipIdx_map_snd]
            exact List.nodup_range'
          exact List.pairwise_map.mp hnodup
        apply List.Pairwise.filterMap _ _ hplaces
        intro left right hne entry hentry other hother
        rcases Option.map_eq_some_iff.mp hentry with ⟨_, _, heq⟩
        rcases Option.map_eq_some_iff.mp hother with ⟨_, _, heq'⟩
        intro hsame
        rw [← heq, ← heq'] at hsame
        exact hne (congrArg (fun pair : Slot × BlockId => pair.1.place) hsame)
      · intro left hleft right hright hsame
        rcases List.mem_flatMap.mp hright with ⟨other, hother, hmem⟩
        rw [hsame] at hleft
        have htype := (mem_rowSlots.mp hleft).left
        have htype' := (mem_rowSlots.mp hmem).left
        exact hdistinct.left (List.mem_map.mpr ⟨other, hother, htype'.symm.trans htype⟩)

/-!
## All places
-/

def places (table : HeadTable) (type : EntityType) : List Slot :=
  (List.range (table.extent type)).map fun place => { type, place }

def allPlaces (table : HeadTable) : List Slot :=
  table.types.flatMap table.places

theorem mem_places {table : HeadTable} {type : EntityType} {slot : Slot} :
    slot ∈ table.places type ↔ slot.type = type ∧ slot.place < table.extent type := by
  rcases slot with ⟨slotType, place⟩
  simp only [places, List.mem_map, List.mem_range, Slot.mk.injEq]
  constructor
  · rintro ⟨found, hlt, htype, hplace⟩
    exact ⟨htype.symm, hplace ▸ hlt⟩
  · rintro ⟨htype, hlt⟩
    exact ⟨place, hlt, htype.symm, rfl⟩

theorem mem_allPlaces {table : HeadTable} {slot : Slot} :
    slot ∈ table.allPlaces ↔ slot.place < table.extent slot.type := by
  simp only [allPlaces, List.mem_flatMap, mem_places]
  constructor
  · rintro ⟨type, _, htype, hlt⟩
    exact htype ▸ hlt
  · intro hlt
    exact ⟨slot.type, mem_types_of_lt_extent hlt, rfl, hlt⟩

theorem nodup_allPlaces {table : HeadTable} (hdistinct : table.types.Nodup) :
    table.allPlaces.Nodup := by
  rw [allPlaces, List.nodup_flatMap]
  constructor
  · intro type _
    apply List.nodup_range.map
    intro left right heq
    exact congrArg Slot.place heq
  · apply hdistinct.imp
    intro left right hne slot hleft hright
    exact hne ((mem_places.mp hleft).left.symm.trans (mem_places.mp hright).left)

theorem toList_heads {table : HeadTable} {type : EntityType} {heads : Array (Option BlockId)}
    (h : table.heads? type = some heads) :
    heads.toList = (table.places type).map table.headAt := by
  have hextent : table.extent type = heads.size := by
    rw [extent, h]
  apply List.ext_getElem
  · simp [places, hextent]
  · intro place hplace _
    have hlt : place < heads.size := hplace
    simp [places, headAt, h, hlt]

theorem perm_map_slots {table : HeadTable} (hdistinct : table.types.Nodup) :
    (table.slots.map Prod.fst).Perm
      (table.allPlaces.filter fun slot => (table.headAt slot).isSome) := by
  have hnodup : (table.slots.map Prod.fst).Nodup := by
    apply (nodup_slots hdistinct).map_on
    rintro ⟨left, head⟩ hleft ⟨right, other⟩ hright hsame
    subst hsame
    have hheads : some head = some other :=
      ((mem_slots hdistinct).mp hleft).symm.trans ((mem_slots hdistinct).mp hright)
    rw [Option.some.inj hheads]
  rw [List.perm_ext_iff_of_nodup hnodup ((nodup_allPlaces hdistinct).filter _)]
  intro slot
  rw [List.mem_filter, mem_allPlaces, List.mem_map, Option.isSome_iff_exists]
  constructor
  · rintro ⟨⟨found, head⟩, hmem, heq⟩
    subst heq
    have hhead := (mem_slots hdistinct).mp hmem
    exact ⟨place_lt_extent hhead, head, hhead⟩
  · rintro ⟨_, head, hhead⟩
    exact ⟨(slot, head), (mem_slots hdistinct).mpr hhead, rfl⟩

end HeadTable

end PostingIndex
