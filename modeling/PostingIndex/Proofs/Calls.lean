import PostingIndex.Proofs.Repacking

/-!
# Rows of calls

## Contents

Requests to update entities, the index after a row of them, what a row keeps, and
rows along which block numbers last.
-/

namespace PostingIndex

structure Call where
  entity : Entity
  changes : Changes

namespace Index

def call (index : Index) (request : Call) : Index :=
  match index.update request.entity request.changes with
  | .ok result => result.index
  | .error _ => index

def calls (index : Index) (requests : List Call) : Index :=
  requests.foldl call index

/-!
## What updates keep
-/

/-- Every update that succeeds keeps a property of an index. -/
def UpdatesKeep (property : Index -> Prop) : Prop :=
  ∀ ⦃index : Index⦄ ⦃entity : Entity⦄ ⦃changes : Changes⦄ ⦃result : Updated⦄,
    property index -> index.update entity changes = .ok result -> property result.index

theorem UpdatesKeep.call {property : Index -> Prop} (hkeep : UpdatesKeep property)
    {index : Index} (h : property index) (request : Call) : property (index.call request) := by
  rw [Index.call]
  cases hupdate : index.update request.entity request.changes with
  | error error =>
      exact h
  | ok result =>
      exact hkeep h hupdate

theorem updatesKeep_addressed :
    UpdatesKeep fun index => ∃ layout, index.Addressed layout := by
  intro index entity changes result h hupdate
  rcases h with ⟨layout, haddressed⟩
  rcases haddressed.update hupdate with ⟨packing, _, _, hnext, _⟩
  exact ⟨_, hnext⟩

/-!
## Rows along which numbers last
-/

def callDemand (index : Index) (request : Call) : Nat :=
  match index.heads.checkExtent request.entity, index.chain request.entity with
  | .ok (), .ok chain => index.demand chain request.changes
  | _, _ => 0

/-- The pool has a number for every one that a call takes. -/
def HasRoom (index : Index) (request : Call) : Prop :=
  index.callDemand request ≤ index.pool.remaining

instance (index : Index) (request : Call) : Decidable (index.HasRoom request) :=
  inferInstanceAs (Decidable (_ ≤ _))

/-- Along a row of calls the pool has a number for every one that is taken. -/
def NumbersLast (index : Index) : List Call -> Prop
  | [] => True
  | request :: rest => index.HasRoom request ∧ NumbersLast (index.call request) rest

instance decidableNumbersLast (index : Index) :
    (requests : List Call) -> Decidable (index.NumbersLast requests)
  | [] => .isTrue trivial
  | request :: rest =>
      let _ := decidableNumbersLast (index.call request) rest
      inferInstanceAs (Decidable (index.HasRoom request ∧ NumbersLast (index.call request) rest))

namespace Owns

variable {index : Index} {entity : Entity} {chain : List StoredBlock} {changes : Changes}

theorem callDemand_eq (h : index.Owns entity.slot chain)
    (hcheck : index.heads.checkExtent entity = .ok ()) :
    index.callDemand { entity, changes } = index.demand chain changes := by
  have hmem := (HeadTable.checkExtent_eq_ok.mp hcheck).left
  rw [callDemand, hcheck, h.chain_eq hmem]

/-- While numbers last only the extent check can stop an update. -/
theorem update_eq_error_of_hasRoom (h : index.Owns entity.slot chain)
    (hwithin : index.pool.FreeWithin) {error : IndexError}
    (hroom : index.HasRoom { entity, changes }) :
    index.update entity changes = .error error ↔
      index.heads.checkExtent entity = .error error := by
  rw [h.update_eq_error hwithin]
  constructor
  · rintro (hcheck | ⟨hcheck, hshort, _⟩)
    · exact hcheck
    · rw [HasRoom, h.callDemand_eq hcheck] at hroom
      exact absurd hshort (Nat.not_lt.mpr hroom)
  · exact Or.inl

end Owns

namespace Laid

variable {index : Index} {layout : Layout} {entity : Entity} {changes : Changes}

theorem update_eq_error_of_hasRoom (h : index.Laid layout) {error : IndexError}
    (hroom : index.HasRoom { entity, changes }) :
    index.update entity changes = .error error ↔
      index.heads.checkExtent entity = .error error :=
  (h.owns entity.slot).update_eq_error_of_hasRoom h.freeWithin hroom

end Laid

end Index

end PostingIndex
