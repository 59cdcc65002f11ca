import Mathlib.Data.Finset.Max
import Mathlib.Logic.Function.Basic
import PostingIndex.Proofs.Answers

/-!
# Introducing entities in a row

Entities become known one after the other.  A row of them, ascending by
catalogue and number, can be introduced exactly if every number of the row that
is not known yet comes with all numbers between the extent and itself.  The
check before a batch keeps the extent of one catalogue at a time, and that is
enough because the catalogues of the row do not alternate.

## Contents

The extents after a row of entities, which rows pass, the entity that stops a
row, and the check before a batch.
-/

namespace PostingIndex

theorem Entity.order_eq_lt {left right : Entity} :
    Entity.order left right = .lt ↔
      left.type.tag < right.type.tag ∨ (left.type = right.type ∧ left.id < right.id) := by
  have htag : left.type = right.type ↔ left.type.tag = right.type.tag :=
    ⟨congrArg EntityType.tag, EntityType.tag_inj⟩
  rw [htag, order, Ordering.then_eq_lt, Std.LawfulEqCmp.compare_eq_iff_eq,
    Std.compare_eq_lt, Std.compare_eq_lt]

abbrev Extents :=
  EntityType -> Nat

namespace Extents

variable {types : List EntityType} {extents : Extents}

def introduce (extents : Extents) (entity : Entity) : Extents :=
  Function.update extents entity.type (max (extents entity.type) (entity.id.toNat + 1))

def accept (types : List EntityType) (extents : Extents) (entity : Entity) :
    Except IndexError Extents :=
  if entity.type ∈ types then
    if extents entity.type < entity.id.toNat then
      .error (.entityOutOfRange entity (UInt32.ofNat (extents entity.type)))
    else
      (Checked.succ entity.id).map fun _ => extents.introduce entity
  else
    .error (.unknownType entity.type)

/--
An entity can be introduced along with others: its catalogue is configured, and
all numbers from the extent up to its own are among them.
-/
def Follows (types : List EntityType) (extents : Extents) (among : Entity -> Prop)
    (entity : Entity) : Prop :=
  entity.type ∈ types ∧ ∀ id : EntityId, extents entity.type ≤ id.toNat -> id ≤ entity.id ->
    among { type := entity.type, id }

/-!
## The extents after a row
-/

theorem introduce_le_iff {entity : Entity} {type : EntityType} {bound : Nat} :
    extents.introduce entity type ≤ bound ↔
      extents type ≤ bound ∧ (entity.type = type -> entity.id.toNat < bound) := by
  unfold introduce
  by_cases htype : entity.type = type
  · subst htype
    rw [Function.update_self, Nat.max_le, Nat.succ_le_iff]
    simp
  · rw [Function.update_of_ne (fun heq => htype heq.symm)]
    simp [htype]

/-- The extents after a row are the least ones that hold all of it. -/
theorem foldl_introduce_le_iff {row : List Entity} {type : EntityType} {bound : Nat} :
    row.foldl introduce extents type ≤ bound ↔
      extents type ≤ bound ∧ ∀ entity ∈ row, entity.type = type -> entity.id.toNat < bound := by
  induction row generalizing extents with
  | nil =>
      simp
  | cons entity rest ih =>
      rw [List.foldl_cons, ih, introduce_le_iff, and_assoc, List.forall_mem_cons]

theorem lt_foldl_introduce {row : List Entity} {entity : Entity} (hmem : entity ∈ row) :
    entity.id.toNat < row.foldl introduce extents entity.type :=
  (foldl_introduce_le_iff.mp (Nat.le_refl _)).right entity hmem rfl

theorem not_mem_of_lt {before later : List Entity} {entity : Entity}
    (hsorted : (before ++ entity :: later).Pairwise fun left right =>
      Entity.order left right = .lt) {id : EntityId}
    (hknown : before.foldl introduce extents entity.type ≤ id.toNat) (hless : id < entity.id) :
    { type := entity.type, id } ∉ before ++ entity :: later := by
  intro hmem
  rcases List.mem_append.mp hmem with hmem | hmem
  · exact Nat.lt_irrefl _ (Nat.lt_of_lt_of_le (lt_foldl_introduce hmem) hknown)
  · rcases List.mem_cons.mp hmem with hsame | hmem
    · rw [← hsame] at hless
      exact UInt32.lt_irrefl _ hless
    · have hlater := (List.pairwise_cons.mp (List.pairwise_append.mp hsorted).right.left).left
      rcases Entity.order_eq_lt.mp (hlater _ hmem) with htag | ⟨_, hid⟩
      · exact UInt8.lt_irrefl _ htag
      · exact UInt32.lt_asymm hid hless

/-!
## Rows that pass
-/

theorem accept_eq_ok {entity : Entity} {after : Extents} :
    accept types extents entity = .ok after ↔
      (entity.type ∈ types ∧ entity.id.toNat ≤ extents entity.type) ∧
        entity.id.toNat + 1 < 2 ^ 32 ∧ extents.introduce entity = after := by
  unfold accept
  split
  · next hmem =>
      split
      · next hlt =>
          simp [Nat.not_le.mpr hlt]
      · next hle =>
          rw [Outcome.map_eq_ok, and_iff_right ⟨hmem, Nat.not_lt.mp hle⟩,
            exists_and_right]
          apply and_congr_left
          intro _
          constructor
          · rintro ⟨next, hnext⟩
            rw [← Checked.succ_eq_ok.mp hnext]
            exact next.toNat_lt
          · intro hlt
            refine ⟨UInt32.ofNat (entity.id.toNat + 1), Checked.succ_eq_ok.mpr ?_⟩
            exact UInt32.toNat_ofNat_of_lt' hlt
  · next hmem =>
      simp [hmem]

theorem lt_of_foldlM_eq_ok {row : List Entity} {after : Extents}
    (h : row.foldlM (accept types) extents = .ok after) :
    ∀ entity ∈ row, entity.id.toNat + 1 < 2 ^ 32 := by
  induction row generalizing extents with
  | nil =>
      intro entity hmem
      cases hmem
  | cons first rest ih =>
      rw [List.foldlM_cons, Outcome.bind_eq_ok] at h
      rcases h with ⟨between, hfirst, hrest⟩
      rw [List.forall_mem_cons]
      exact ⟨(accept_eq_ok.mp hfirst).right.left, ih hrest⟩

theorem follows_of_foldlM_eq_ok {row : List Entity} {after : Extents}
    (h : row.foldlM (accept types) extents = .ok after) :
    ∀ entity ∈ row, Follows types extents (· ∈ row) entity := by
  induction row generalizing extents with
  | nil =>
      intro entity hmem
      cases hmem
  | cons first rest ih =>
      rw [List.foldlM_cons, Outcome.bind_eq_ok] at h
      rcases h with ⟨between, hfirst, hrest⟩
      rcases accept_eq_ok.mp hfirst with ⟨⟨htype, hle⟩, _, hbetween⟩
      subst hbetween
      -- A number from the old extent up to the first entity's is the first entity's.
      have hsame : ∀ id : EntityId, extents first.type ≤ id.toNat -> id ≤ first.id ->
          { type := first.type, id } = first := by
        intro id hknown hid
        have hge : first.id ≤ id := UInt32.le_iff_toNat_le.mpr (Nat.le_trans hle hknown)
        rw [UInt32.le_antisymm hid hge]
      intro entity hmem
      cases hmem with
      | head =>
          refine ⟨htype, ?_⟩
          intro id hknown hid
          rw [hsame id hknown hid]
          exact List.mem_cons_self
      | tail _ hmem =>
          rcases ih hrest entity hmem with ⟨hentity, hbelow⟩
          refine ⟨hentity, ?_⟩
          intro id hknown hid
          by_cases hlater : extents.introduce first entity.type ≤ id.toNat
          · exact List.mem_cons_of_mem _ (hbelow id hlater hid)
          · rw [introduce_le_iff, not_and, Classical.not_imp, Nat.not_lt] at hlater
            rcases hlater hknown with ⟨heq, hless⟩
            rw [← heq] at hknown ⊢
            rw [hsame id hknown (UInt32.le_iff_toNat_le.mpr hless)]
            exact List.mem_cons_self

theorem foldlM_eq_ok_of_follows {row : List Entity}
    (hsorted : row.Pairwise fun left right => Entity.order left right = .lt)
    (hlast : ∀ entity ∈ row, entity.id.toNat + 1 < 2 ^ 32)
    (h : ∀ entity ∈ row, Follows types extents (· ∈ row) entity) :
    row.foldlM (accept types) extents = .ok (row.foldl introduce extents) := by
  induction row generalizing extents with
  | nil =>
      rfl
  | cons first rest ih =>
      rcases List.pairwise_cons.mp hsorted with ⟨hlater, hrest⟩
      rcases h first List.mem_cons_self with ⟨htype, hbelow⟩
      have hle : first.id.toNat ≤ extents first.type := by
        -- The entity at the extent would be in the row, but no number there is.
        by_contra hlt
        rw [Nat.not_le] at hlt
        have hnumber : (UInt32.ofNat (extents first.type)).toNat = extents first.type :=
          UInt32.toNat_ofNat_of_lt' (Nat.lt_trans hlt first.id.toNat_lt)
        have hless : UInt32.ofNat (extents first.type) < first.id := by
          rw [UInt32.lt_iff_toNat_lt, hnumber]
          exact hlt
        have hknown := Nat.le_of_eq hnumber.symm
        have hmissing := @not_mem_of_lt extents [] rest first hsorted _ hknown hless
        exact hmissing (hbelow _ hknown (UInt32.le_of_lt hless))
      rcases List.forall_mem_cons.mp hlast with ⟨hfirst, hlast⟩
      rw [List.foldlM_cons, List.foldl_cons, accept_eq_ok.mpr ⟨⟨htype, hle⟩, hfirst, rfl⟩]
      apply ih hrest hlast
      intro entity hmem
      rcases h entity (List.mem_cons_of_mem _ hmem) with ⟨hentity, hall⟩
      refine ⟨hentity, ?_⟩
      intro id hknown hid
      rcases introduce_le_iff.mp hknown with ⟨hold, hnew⟩
      rcases List.mem_cons.mp (hall id hold hid) with heq | hin
      · -- The first entity is known by now.
        rw [← heq] at hnew
        exact absurd (hnew rfl) (Nat.lt_irrefl _)
      · exact hin

/-!
## The entity that stops a row
-/

/--
An entity is the first of some whose turn does not come, and the error names the
number that is missing before it.
-/
structure StopsAt (types : List EntityType) (extents : Extents) (among : Entity -> Prop)
    (entity : Entity) (error : IndexError) : Prop where
  member : among entity
  stops : ¬ Follows types extents among entity
  first : ∀ other, among other -> ¬ Follows types extents among other ->
    other = entity ∨ Entity.order entity other = .lt
  reason : (entity.type ∉ types ∧ error = .unknownType entity.type) ∨
    (entity.type ∈ types ∧ ∃ missing : EntityId, missing < entity.id ∧
      error = .entityOutOfRange entity missing ∧
      extents entity.type ≤ missing.toNat ∧
      ¬ among { type := entity.type, id := missing } ∧
      ∀ id : EntityId, extents entity.type ≤ id.toNat -> id < missing ->
        among { type := entity.type, id })

theorem Follows.mono {fewer more : Entity -> Prop} (hmore : ∀ entity, fewer entity -> more entity)
    {entity : Entity} (h : Follows types extents fewer entity) :
    Follows types extents more entity :=
  ⟨h.left, fun id hknown hid => hmore _ (h.right id hknown hid)⟩

end Extents

/-!
## The check before a batch
-/

namespace Index

def extents (index : Index) : Extents :=
  fun type => (index.heads.reported type).toNat

/-- The numbers of known entities are numbers of 32 bits. -/
def Counted (index : Index) : Prop :=
  ∀ type, index.heads.extent type < 2 ^ 32

theorem Counted.extents_eq {index : Index} (h : index.Counted) :
    index.extents = index.heads.extent := by
  funext type
  exact HeadTable.toNat_reported (h type)

/-- What the check of a row knows of the extents when some entities are left. -/
structure Tracks (index : Index) (extents : Extents) (reached : Option ReachedExtent)
    (rest : List Entity) : Prop where
  current : ∀ extent ∈ reached,
    extent.type ∈ index.heads.types ∧ extents extent.type = extent.known.toNat
  ahead : ∀ extent ∈ reached, ∀ entity ∈ rest, extent.type.tag ≤ entity.type.tag
  others : ∀ entity ∈ rest, (∀ extent ∈ reached, extent.type ≠ entity.type) ->
    extents entity.type = index.extents entity.type

theorem known_eq (index : Index) (type : EntityType) :
    index.known type =
      if type ∈ index.heads.types then .ok (index.heads.reported type)
      else .error (.unknownType type) := by
  split
  · next hmem =>
      exact HeadTable.known_of_mem hmem
  · next hmem =>
      exact HeadTable.known_of_not_mem hmem

theorem Tracks.knownBy {index : Index} {extents : Extents}
    {reached : Option ReachedExtent} {entity : Entity} {rest : List Entity}
    (h : index.Tracks extents reached (entity :: rest)) :
    ∃ known : UInt32, known.toNat = extents entity.type ∧
      index.knownBy reached entity =
        if entity.type ∈ index.heads.types then .ok known
        else .error (.unknownType entity.type) := by
  cases reached with
  | none =>
      have hextent := h.others entity List.mem_cons_self (fun _ hreached => by cases hreached)
      exact ⟨index.heads.reported entity.type, hextent.symm, index.known_eq entity.type⟩
  | some extent =>
      rw [Index.knownBy]
      by_cases hsame : extent.type = entity.type
      · rcases h.current extent rfl with ⟨hmem, hextent⟩
        rw [hsame] at hmem hextent
        exact ⟨extent.known, hextent.symm, by rw [if_pos hsame, if_pos hmem]⟩
      · have hextent := h.others entity List.mem_cons_self (fun _ hreached => by
          cases hreached
          exact hsame)
        exact ⟨index.heads.reported entity.type, hextent.symm,
          by rw [if_neg hsame, index.known_eq]⟩

theorem Tracks.checkReached {index : Index} {extents : Extents}
    {reached : Option ReachedExtent} {entity : Entity} {rest : List Entity}
    (h : index.Tracks extents reached (entity :: rest)) :
    index.checkReached reached entity =
      (Extents.accept index.heads.types extents entity).map fun after =>
        some { type := entity.type, known := UInt32.ofNat (after entity.type) } := by
  rcases h.knownBy with ⟨known, hextent, hknown⟩
  have hsame : UInt32.ofNat (extents entity.type) = known := by
    rw [← hextent, UInt32.ofNat_toNat]
  rw [checkReached_eq, hknown]
  unfold Extents.accept
  by_cases hmem : entity.type ∈ index.heads.types
  · rw [if_pos hmem, if_pos hmem, hsame, ← hextent]
    show (if known < entity.id then _ else _) = _
    by_cases hlt : known < entity.id
    · rw [if_pos hlt, if_pos (UInt32.lt_iff_toNat_lt.mp hlt)]
      rfl
    · rw [if_neg hlt, if_neg (mt UInt32.lt_iff_toNat_lt.mpr hlt)]
      cases hnext : Checked.succ entity.id with
      | error error =>
          rfl
      | ok next =>
          have hmax : UInt32.ofNat (extents.introduce entity entity.type) = max known next := by
            rw [Extents.introduce, Function.update_self, ← hextent,
              ← Checked.succ_eq_ok.mp hnext, ← UInt32.toNat_max, UInt32.ofNat_toNat]
          simp only [Except.map, hmax]
  · rw [if_neg hmem, if_neg hmem]
    rfl

theorem Tracks.introduce_lt {index : Index} {extents : Extents}
    {reached : Option ReachedExtent} {entity : Entity} {rest : List Entity}
    (h : index.Tracks extents reached (entity :: rest))
    (hlast : entity.id.toNat + 1 < 2 ^ 32) :
    extents.introduce entity entity.type < 2 ^ 32 := by
  rcases h.knownBy with ⟨known, hextent, _⟩
  rw [Extents.introduce, Function.update_self, ← hextent]
  exact Nat.max_lt.mpr ⟨known.toNat_lt, hlast⟩

theorem Tracks.next {index : Index} {extents : Extents} {reached : Option ReachedExtent}
    {entity : Entity} {rest : List Entity} (h : index.Tracks extents reached (entity :: rest))
    (hlater : ∀ other ∈ rest, Entity.order entity other = .lt)
    (hmem : entity.type ∈ index.heads.types) (hlast : entity.id.toNat + 1 < 2 ^ 32) :
    index.Tracks (extents.introduce entity)
      (some { type := entity.type,
              known := UInt32.ofNat (extents.introduce entity entity.type) }) rest := by
  have hahead : ∀ other ∈ rest, entity.type.tag ≤ other.type.tag := by
    intro other hother
    rcases Entity.order_eq_lt.mp (hlater other hother) with htag | ⟨htype, _⟩
    · exact UInt8.le_of_lt htag
    · exact htype ▸ UInt8.le_refl _
  constructor
  · rintro extent ⟨⟩
    exact ⟨hmem, (UInt32.toNat_ofNat_of_lt' (h.introduce_lt hlast)).symm⟩
  · rintro extent ⟨⟩
    exact hahead
  · intro other hother hnew
    have hne : other.type ≠ entity.type := fun heq => hnew _ rfl heq.symm
    rw [Extents.introduce, Function.update_of_ne hne]
    apply h.others other (List.mem_cons_of_mem _ hother)
    -- The catalogue before this one lies behind, so the row does not come back to it.
    intro extent hreached heq
    have hle := h.ahead extent hreached entity List.mem_cons_self
    rw [heq] at hle
    exact hne (EntityType.tag_inj (UInt8.le_antisymm hle (hahead other hother)))

theorem Tracks.foldlM_checkReached {index : Index} {extents : Extents}
    {reached : Option ReachedExtent} {row : List Entity}
    (hsorted : row.Pairwise fun left right => Entity.order left right = .lt)
    (h : index.Tracks extents reached row) :
    (row.foldlM (index.checkReached) reached).map (fun _ => ()) =
      (row.foldlM (Extents.accept index.heads.types) extents).map fun _ => () := by
  induction row generalizing extents reached with
  | nil =>
      rfl
  | cons entity rest ih =>
      rcases List.pairwise_cons.mp hsorted with ⟨hlater, hrest⟩
      rw [List.foldlM_cons, List.foldlM_cons, h.checkReached]
      cases haccept : Extents.accept index.heads.types extents entity with
      | error error =>
          rfl
      | ok after =>
          rcases Extents.accept_eq_ok.mp haccept with ⟨⟨hmem, _⟩, hlast, hafter⟩
          subst hafter
          exact ih hrest (h.next hlater hmem hlast)

theorem checkExtents_eq {index : Index} {row : List Entity}
    (hsorted : row.Pairwise fun left right => Entity.order left right = .lt) :
    index.checkExtents row =
      (row.foldlM (Extents.accept index.heads.types) index.extents).map fun _ => () := by
  have hstart : index.Tracks index.extents none row := by
    constructor
    · rintro extent ⟨⟩
    · rintro extent ⟨⟩
    · intro entity _ _
      rfl
  rw [← hstart.foldlM_checkReached hsorted, checkExtents]
  cases row.foldlM (index.checkReached) none with
  | error error =>
      rfl
  | ok reached =>
      rfl

end Index

end PostingIndex
