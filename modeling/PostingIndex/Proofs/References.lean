import Mathlib.Algebra.GroupWithZero.Nat
import PostingIndex.Game
import PostingIndex.Proofs.Outcome

/-!
# References of a header

A header names entities in the roles of their catalogues, and the count of an
entity is how often it is named.  A change of a header asks for a new count
exactly where the counts of the two headers differ.

## Contents

How often a header names an entity, the counts of a list of references, and the
counts that a change of a header asks for.
-/

namespace PostingIndex

theorem Entity.order_eq_eq {left right : Entity} :
    Entity.order left right = .eq ↔ left = right :=
  Std.LawfulEqCmp.compare_eq_iff_eq

namespace GameHeader

def roles (header : GameHeader) : EntityType -> List EntityId
  | .player => header.white.toList ++ header.black.toList
  | .source => header.source.toList
  | .tournament => header.tournament.toList
  | .annotator => header.annotators
  | .team => header.whiteTeam.toList ++ header.blackTeam.toList
  | .gameTag => header.tags

def times (header : GameHeader) (entity : Entity) : Nat :=
  (header.roles entity.type).count entity.id

theorem count_role (type : EntityType) (ids : List EntityId) (entity : Entity) :
    (ids.map fun id => { type, id : Entity }).count entity =
      if type = entity.type then ids.count entity.id else 0 := by
  induction ids with
  | nil =>
      simp
  | cons id ids ih =>
      rcases entity with ⟨type', id'⟩
      rw [List.map_cons, List.count_cons, ih, List.count_cons]
      by_cases htype : type = type'
      · simp [htype]
      · simp [htype]

theorem count_references (header : GameHeader) (entity : Entity) :
    header.references.count entity = header.times entity := by
  rcases entity with ⟨type, id⟩
  simp only [references, times, List.count_append, count_role]
  cases type with
  | player => simp [roles]
  | source => simp [roles]
  | tournament => simp [roles]
  | annotator => simp [roles]
  | team => simp [roles]
  | gameTag => simp [roles]

end GameHeader

namespace EntityCounts

/-- Counts that hold given numbers exactly, and nothing where the number is zero. -/
structure Exact (counts : EntityCounts) (times : Entity -> Nat) : Prop where
  fits : ∀ entity, times entity < 2 ^ 32
  get : ∀ entity, counts[entity]? =
    if times entity = 0 then none else some (UInt32.ofNat (times entity))

theorem exact_empty : Exact ∅ fun _ => 0 := by
  constructor
  · intro entity
    decide
  · intro entity
    simp

theorem Exact.toNat_getD {counts : EntityCounts} {times : Entity -> Nat}
    (h : counts.Exact times) (entity : Entity) :
    (counts.getD entity 0).toNat = times entity := by
  rw [Std.TreeMap.getD_eq_getD_getElem?, h.get]
  split
  · next hzero =>
      exact hzero.symm
  · exact UInt32.toNat_ofNat_of_lt' (h.fits entity)

theorem Exact.add_eq_ok {counts next : EntityCounts} {times : Entity -> Nat}
    (h : counts.Exact times) {entity : Entity} (hadd : counts.add entity = .ok next) :
    next.Exact fun other => times other + [entity].count other := by
  rw [add, Outcome.bind_eq_ok] at hadd
  rcases hadd with ⟨count, hcount, hnext⟩
  cases hnext
  rw [Checked.succ_eq_ok, h.toNat_getD] at hcount
  constructor
  · intro other
    by_cases hsame : entity = other
    · subst hsame
      simpa [hcount] using count.toNat_lt
    · simpa [hsame] using h.fits other
  · intro other
    simp only [Std.TreeMap.getElem?_insert, Entity.order_eq_eq]
    by_cases hsame : entity = other
    · subst hsame
      have hpositive : count.toNat ≠ 0 := by omega
      simp [← hcount, hpositive]
    · simp [hsame, h.get]

theorem Exact.add_eq_error {counts : EntityCounts} {times : Entity -> Nat}
    (h : counts.Exact times) {entity : Entity} {error : IndexError}
    (hadd : counts.add entity = .error error) :
    times entity + 1 = 2 ^ 32 ∧ error = .aborted .addOverflow := by
  rw [add, Outcome.bind_eq_error] at hadd
  rcases hadd with hcount | ⟨_, _, hnext⟩
  · rwa [Checked.succ_eq_error, h.toNat_getD] at hcount
  · cases hnext

theorem count_reference_cons (reference : Entity) (rest : List Entity) (entity : Entity) :
    (reference :: rest).count entity = [reference].count entity + rest.count entity := by
  rw [← List.singleton_append, List.count_append]

theorem Exact.foldlM_add_eq_ok {references : List Entity} {counts result : EntityCounts}
    {times : Entity -> Nat} (h : counts.Exact times)
    (hresult : references.foldlM add counts = .ok result) :
    result.Exact fun entity => times entity + references.count entity := by
  induction references generalizing counts times with
  | nil =>
      rw [List.foldlM_nil, Outcome.pure_eq_ok] at hresult
      subst hresult
      exact h
  | cons reference rest ih =>
      rw [List.foldlM_cons, Outcome.bind_eq_ok] at hresult
      rcases hresult with ⟨next, hnext, hresult⟩
      have hall := ih (h.add_eq_ok hnext) hresult
      simpa only [count_reference_cons reference rest, Nat.add_assoc] using hall

theorem Exact.foldlM_add_eq_error {references : List Entity} {counts : EntityCounts}
    {times : Entity -> Nat} (h : counts.Exact times) {error : IndexError}
    (herror : references.foldlM add counts = .error error) :
    (∃ entity, 2 ^ 32 ≤ times entity + references.count entity) ∧
      error = .aborted .addOverflow := by
  induction references generalizing counts times with
  | nil =>
      cases herror
  | cons reference rest ih =>
      rw [List.foldlM_cons, Outcome.bind_eq_error] at herror
      rcases herror with hadd | ⟨next, hnext, herror⟩
      · rcases h.add_eq_error hadd with ⟨hfull, heq⟩
        refine ⟨⟨reference, ?_⟩, heq⟩
        rw [count_reference_cons, List.count_singleton_self]
        omega
      · rcases ih (h.add_eq_ok hnext) herror with ⟨⟨entity, hfull⟩, heq⟩
        exact ⟨⟨entity, by rw [count_reference_cons]; omega⟩, heq⟩

end EntityCounts

namespace GameHeader

/-- An entity is counted exactly if it is named, and then as often as it is named. -/
theorem exact_counts {header : GameHeader} {counts : EntityCounts}
    (h : header.counts = .ok counts) : counts.Exact header.times := by
  have hexact := EntityCounts.exact_empty.foldlM_add_eq_ok h
  simpa only [Nat.zero_add, count_references] using hexact

theorem counts_eq_error {header : GameHeader} {error : IndexError}
    (h : header.counts = .error error) :
    (∃ entity, 2 ^ 32 ≤ header.times entity) ∧ error = .aborted .addOverflow := by
  have hfull := EntityCounts.exact_empty.foldlM_add_eq_error h
  simpa only [Nat.zero_add, count_references] using hfull

end GameHeader

namespace GameChange

def timesOf (header? : Option GameHeader) (entity : Entity) : Nat :=
  match header? with
  | some header => header.times entity
  | none => 0

theorem exact_countsOf {header? : Option GameHeader} {counts : EntityCounts}
    (h : countsOf header? = .ok counts) : counts.Exact (timesOf header?) := by
  cases header? with
  | none =>
      cases h
      exact EntityCounts.exact_empty
  | some header =>
      exact GameHeader.exact_counts h

theorem countsOf_eq_error {header? : Option GameHeader} {error : IndexError}
    (h : countsOf header? = .error error) :
    (∃ entity, 2 ^ 32 ≤ timesOf header? entity) ∧ error = .aborted .addOverflow := by
  cases header? with
  | none =>
      cases h
  | some header =>
      exact GameHeader.counts_eq_error h

/-- The count that a change asks for; none where it leaves the count as it is. -/
def newCount? (change : GameChange) (entity : Entity) : Option UInt32 :=
  if timesOf change.old entity = timesOf change.new entity then
    none
  else
    some (UInt32.ofNat (timesOf change.new entity))

theorem mem_dropped {old new : EntityCounts} {entity : Entity} {count : UInt32} :
    (entity, count) ∈
        (old.keys.filter fun entity => !new.contains entity).map (fun entity => (entity, 0)) ↔
      entity ∈ old ∧ entity ∉ new ∧ 0 = count := by
  simp only [List.mem_map, List.mem_filter, Std.TreeMap.mem_keys, Prod.mk.injEq,
    Bool.not_eq_true', ← Bool.not_eq_true, Std.TreeMap.contains_iff_mem]
  constructor
  · rintro ⟨found, ⟨hold, hnew⟩, heq, hcount⟩
    exact ⟨heq ▸ hold, heq ▸ hnew, hcount⟩
  · rintro ⟨hold, hnew, hcount⟩
    exact ⟨entity, ⟨hold, hnew⟩, rfl, hcount⟩

theorem mem_differing {old new : EntityCounts} {entity : Entity} {count : UInt32} :
    (entity, count) ∈ differing old new ↔
      old[entity]? ≠ new[entity]? ∧ count = new[entity]?.getD 0 := by
  unfold differing
  rw [List.mem_append, List.mem_filter, mem_dropped,
    Std.TreeMap.mem_toList_iff_getElem?_eq_some, Std.TreeMap.mem_iff_isSome_getElem?,
    Std.TreeMap.mem_iff_isSome_getElem?]
  cases hnew : new[entity]? with
  | none =>
      cases hold : old[entity]? with
      | none =>
          simp
      | some before =>
          simpa using eq_comm
  | some after =>
      simp only [bne_iff_ne, Option.isSome_some, not_true, false_and, and_false, or_false,
        Option.some.injEq, Option.getD_some]
      constructor
      · rintro ⟨hcount, hdiffers⟩
        exact ⟨hcount ▸ hdiffers, hcount.symm⟩
      · rintro ⟨hdiffers, hcount⟩
        exact ⟨hcount.symm, hcount ▸ hdiffers⟩

theorem mem_differing_of_exact {old new : EntityCounts} {before after : Entity -> Nat}
    (hold : old.Exact before) (hnew : new.Exact after) {entity : Entity} {count : UInt32} :
    (entity, count) ∈ differing old new ↔
      before entity ≠ after entity ∧ count = UInt32.ofNat (after entity) := by
  have hget : new[entity]?.getD 0 = UInt32.ofNat (after entity) := by
    rw [hnew.get]
    split
    · next hzero =>
        rw [hzero]
        rfl
    · rfl
  have hiff : old[entity]? = new[entity]? ↔ before entity = after entity := by
    constructor
    · intro heq
      rw [← hold.toNat_getD, ← hnew.toNat_getD, Std.TreeMap.getD_eq_getD_getElem?,
        Std.TreeMap.getD_eq_getD_getElem?, heq]
    · intro heq
      rw [hold.get, hnew.get, heq]
  rw [mem_differing, hget, ne_eq, hiff]

/-- The differences of a change list the counts that it asks for. -/
theorem mem_differences {change : GameChange} {requests : List (Entity × UInt32)}
    (h : change.differences = .ok requests) {entity : Entity} {count : UInt32} :
    (entity, count) ∈ requests ↔ change.newCount? entity = some count := by
  rw [differences, Outcome.bind_eq_ok] at h
  rcases h with ⟨old, hold, h⟩
  rw [Outcome.bind_eq_ok] at h
  rcases h with ⟨new, hnew, h⟩
  cases h
  rw [mem_differing_of_exact (exact_countsOf hold) (exact_countsOf hnew), newCount?]
  split
  · next hsame =>
      constructor
      · rintro ⟨hdiffers, _⟩
        exact absurd hsame hdiffers
      · intro hnone
        cases hnone
  · next hdiffers =>
      rw [Option.some.injEq, eq_comm, and_iff_right hdiffers]

/-- Some entity is named too often for a count of 32 bits. -/
def Uncountable (change : GameChange) : Prop :=
  ∃ entity, 2 ^ 32 ≤ timesOf change.old entity ∨ 2 ^ 32 ≤ timesOf change.new entity

theorem differences_eq_error {change : GameChange} {error : IndexError}
    (h : change.differences = .error error) :
    change.Uncountable ∧ error = .aborted .addOverflow := by
  rw [differences, Outcome.bind_eq_error] at h
  rcases h with hold | ⟨_, _, h⟩
  · rcases countsOf_eq_error hold with ⟨⟨entity, hfull⟩, heq⟩
    exact ⟨⟨entity, Or.inl hfull⟩, heq⟩
  · rw [Outcome.bind_eq_error] at h
    rcases h with hnew | ⟨_, _, h⟩
    · rcases countsOf_eq_error hnew with ⟨⟨entity, hfull⟩, heq⟩
      exact ⟨⟨entity, Or.inr hfull⟩, heq⟩
    · cases h

theorem not_uncountable_of_differences {change : GameChange}
    {requests : List (Entity × UInt32)} (h : change.differences = .ok requests) :
    ¬ change.Uncountable := by
  rw [differences, Outcome.bind_eq_ok] at h
  rcases h with ⟨old, hold, h⟩
  rw [Outcome.bind_eq_ok] at h
  rcases h with ⟨new, hnew, _⟩
  rintro ⟨entity, hfull | hfull⟩
  · exact Nat.not_le.mpr ((exact_countsOf hold).fits entity) hfull
  · exact Nat.not_le.mpr ((exact_countsOf hnew).fits entity) hfull

end GameChange

end PostingIndex
