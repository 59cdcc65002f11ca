import PostingIndex.Game.Batch
import PostingIndex.Proofs.References

/-!
# What a batch asks for

A batch collects the counts that its changes ask for, by entity and by game.
Where several changes of one game ask for a count of the same entity, the last
one holds.  An entity takes part exactly if some change gives it another count.

## Contents

The entities that a batch touches, the count that it asks for in one game of an
entity, and what the collected changes hold.
-/

namespace PostingIndex

namespace GameChange

/-- Some change of a batch gives an entity another count. -/
def Touched (batch : List GameChange) (entity : Entity) : Prop :=
  ∃ change ∈ batch, timesOf change.old entity ≠ timesOf change.new entity

instance (batch : List GameChange) (entity : Entity) : Decidable (Touched batch entity) :=
  inferInstanceAs (Decidable (∃ _ ∈ batch, _))

def named (batch : List GameChange) : List Entity :=
  batch.flatMap fun change =>
    (change.old.toList ++ change.new.toList).flatMap GameHeader.references

theorem mem_references_of_timesOf {header? : Option GameHeader} {entity : Entity}
    (h : timesOf header? entity ≠ 0) :
    entity ∈ header?.toList.flatMap GameHeader.references := by
  cases header? with
  | none =>
      exact absurd rfl h
  | some header =>
      have hcount : header.references.count entity ≠ 0 :=
        (header.count_references entity).symm ▸ h
      simpa using List.count_pos_iff.mp (Nat.pos_of_ne_zero hcount)

theorem mem_named_of_touched {batch : List GameChange} {entity : Entity}
    (h : Touched batch entity) : entity ∈ named batch := by
  rcases h with ⟨change, hmem, hdiffers⟩
  apply List.mem_flatMap.mpr
  refine ⟨change, hmem, ?_⟩
  rw [List.flatMap_append, List.mem_append]
  by_cases hold : timesOf change.old entity = 0
  · rw [hold] at hdiffers
    exact Or.inr (mem_references_of_timesOf hdiffers.symm)
  · exact Or.inl (mem_references_of_timesOf hold)

def request? (change : GameChange) (entity : Entity) (game : GameId) : Option UInt32 :=
  if change.game = game then change.newCount? entity else none

def lastRequest? (batch : List GameChange) (entity : Entity) (game : GameId) :
    Option UInt32 :=
  batch.foldl (fun last change => (change.request? entity game).or last) none

theorem newCount?_ne_none {change : GameChange} {entity : Entity} :
    change.newCount? entity ≠ none ↔
      timesOf change.old entity ≠ timesOf change.new entity := by
  simp [newCount?]

theorem mem_map_differences {change : GameChange} {requests : List (Entity × UInt32)}
    (h : change.differences = .ok requests) {entity : Entity} :
    entity ∈ requests.map Prod.fst ↔ change.newCount? entity ≠ none := by
  rw [Option.ne_none_iff_exists', List.mem_map]
  constructor
  · rintro ⟨⟨entity, count⟩, hmem, rfl⟩
    exact ⟨count, (mem_differences h).mp hmem⟩
  · rintro ⟨count, hcount⟩
    exact ⟨(entity, count), (mem_differences h).mpr hcount, rfl⟩

end GameChange

open GameChange

namespace EntityChanges

/-- The count that is asked for in one game of an entity. -/
def asked? (changes : EntityChanges) (entity : Entity) (game : GameId) : Option UInt32 :=
  (changes.getD entity ∅)[game]?

theorem asked?_set (changes : EntityChanges) (game : GameId) (entry : Entity × UInt32)
    (entity : Entity) (other : GameId) :
    (changes.set game entry).asked? entity other =
      if entry.1 = entity ∧ game = other then some entry.2
      else changes.asked? entity other := by
  unfold asked? set
  simp only [Std.TreeMap.getD_insert, Entity.order_eq_eq]
  by_cases hentity : entry.1 = entity
  · simp [hentity, Std.TreeMap.getElem?_insert]
  · simp [hentity]

theorem mem_set {changes : EntityChanges} {game : GameId} {entry : Entity × UInt32}
    {entity : Entity} :
    entity ∈ changes.set game entry ↔ entry.1 = entity ∨ entity ∈ changes := by
  rw [set, Std.TreeMap.mem_insert, Entity.order_eq_eq]

theorem asked?_foldl_set {requests : List (Entity × UInt32)}
    {counts : Entity -> Option UInt32}
    (hagree : ∀ entry ∈ requests, counts entry.1 = some entry.2) (changes : EntityChanges)
    (game : GameId) (entity : Entity) (other : GameId) :
    (requests.foldl (fun changes entry => changes.set game entry) changes).asked?
        entity other =
      if entity ∈ requests.map Prod.fst ∧ game = other then counts entity
      else changes.asked? entity other := by
  induction requests generalizing changes with
  | nil =>
      simp
  | cons entry rest ih =>
      have hrest := ih (fun other hmem => hagree other (List.mem_cons_of_mem _ hmem))
        (changes.set game entry)
      have hentry := hagree entry List.mem_cons_self
      simp only [List.foldl_cons, hrest, asked?_set, ← hentry, List.map_cons, List.mem_cons]
      by_cases hentity : entry.1 = entity
      · subst hentity
        by_cases hgame : game = other
        · simp [hgame]
        · simp [hgame]
      · have hne' : entity ≠ entry.1 := fun heq => hentity heq.symm
        simp only [hentity, hne', false_and, false_or, if_false]

theorem mem_foldl_set {requests : List (Entity × UInt32)} {changes : EntityChanges}
    {game : GameId} {entity : Entity} :
    entity ∈ requests.foldl (fun changes entry => changes.set game entry) changes ↔
      entity ∈ requests.map Prod.fst ∨ entity ∈ changes := by
  induction requests generalizing changes with
  | nil =>
      simp
  | cons entry rest ih =>
      rw [List.foldl_cons, ih, mem_set, List.map_cons, List.mem_cons, or_left_comm,
        ← or_assoc, eq_comm]

variable {changes after : EntityChanges} {change : GameChange} {batch : List GameChange}
  {entity : Entity} {game : GameId}

theorem addGame_eq_ok :
    changes.addGame change = .ok after ↔
      ∃ requests, change.differences = .ok requests ∧
        requests.foldl (fun changes entry => changes.set change.game entry) changes = after := by
  rw [addGame, Outcome.bind_eq_ok]
  simp only [Outcome.pure_eq_ok]

theorem asked?_addGame (h : changes.addGame change = .ok after) (entity : Entity)
    (game : GameId) :
    after.asked? entity game =
      (change.request? entity game).or (changes.asked? entity game) := by
  rcases addGame_eq_ok.mp h with ⟨requests, hrequests, hafter⟩
  have hagree : ∀ entry ∈ requests, change.newCount? entry.1 = some entry.2 :=
    fun entry hmem => (mem_differences hrequests).mp hmem
  rw [← hafter]
  simp only [asked?_foldl_set hagree, mem_map_differences hrequests, request?]
  cases hcount : change.newCount? entity with
  | none =>
      simp
  | some count =>
      by_cases hgame : change.game = game
      · simp [hgame]
      · simp [hgame]

theorem asked?_foldlM_addGame (h : batch.foldlM addGame changes = .ok after) :
    after.asked? entity game =
      batch.foldl (fun last change => (change.request? entity game).or last)
        (changes.asked? entity game) := by
  induction batch generalizing changes with
  | nil =>
      rw [List.foldlM_nil, Outcome.pure_eq_ok] at h
      rw [h]
      rfl
  | cons change rest ih =>
      rw [List.foldlM_cons, Outcome.bind_eq_ok] at h
      rcases h with ⟨between, hbetween, hafter⟩
      rw [List.foldl_cons, ih hafter, asked?_addGame hbetween]

/-- A batch asks for the last count that its changes ask for. -/
theorem asked?_ofBatch (h : ofBatch batch = .ok after) (entity : Entity) (game : GameId) :
    after.asked? entity game = lastRequest? batch entity game := by
  rw [asked?_foldlM_addGame h, lastRequest?]
  rfl

theorem mem_foldlM_addGame (h : batch.foldlM addGame changes = .ok after) :
    entity ∈ after ↔ Touched batch entity ∨ entity ∈ changes := by
  induction batch generalizing changes with
  | nil =>
      rw [List.foldlM_nil, Outcome.pure_eq_ok] at h
      simp [Touched, h]
  | cons change rest ih =>
      rw [List.foldlM_cons, Outcome.bind_eq_ok] at h
      rcases h with ⟨between, hbetween, hafter⟩
      rcases addGame_eq_ok.mp hbetween with ⟨requests, hrequests, hfold⟩
      rw [ih hafter, ← hfold, mem_foldl_set, mem_map_differences hrequests,
        newCount?_ne_none]
      simp only [Touched, List.mem_cons, exists_eq_or_imp]
      rw [or_left_comm, or_assoc]

theorem mem_keys_ofBatch (h : ofBatch batch = .ok after) :
    entity ∈ after.keys ↔ Touched batch entity := by
  rw [Std.TreeMap.mem_keys, mem_foldlM_addGame h]
  simp

/-!
## Batches that cannot be counted
-/

theorem ofBatch_eq_error {error : IndexError} (h : ofBatch batch = .error error) :
    (∃ change ∈ batch, change.Uncountable) ∧ error = .aborted .addOverflow := by
  rcases Outcome.exists_of_foldlM_eq_error h with
    ⟨before, change, later, between, hbatch, _, hfailed⟩
  rw [addGame, Outcome.bind_eq_error] at hfailed
  rcases hfailed with hfailed | ⟨_, _, hreturn⟩
  · rcases differences_eq_error hfailed with ⟨huncountable, heq⟩
    exact ⟨⟨change, hbatch ▸ List.mem_append_right _ List.mem_cons_self, huncountable⟩, heq⟩
  · cases hreturn

theorem not_uncountable_of_foldlM_addGame (h : batch.foldlM addGame changes = .ok after) :
    ∀ change ∈ batch, ¬ change.Uncountable := by
  induction batch generalizing changes with
  | nil =>
      intro change hmem
      cases hmem
  | cons first rest ih =>
      rw [List.foldlM_cons, Outcome.bind_eq_ok] at h
      rcases h with ⟨between, hbetween, hafter⟩
      rcases addGame_eq_ok.mp hbetween with ⟨requests, hrequests, _⟩
      rw [List.forall_mem_cons]
      exact ⟨not_uncountable_of_differences hrequests, ih hafter⟩

/-- A batch can be collected exactly if every header in it can be counted. -/
theorem exists_ofBatch_iff :
    (∃ changes, ofBatch batch = .ok changes) ↔ ∀ change ∈ batch, ¬ change.Uncountable := by
  constructor
  · rintro ⟨changes, h⟩
    exact not_uncountable_of_foldlM_addGame h
  · intro hall
    cases h : ofBatch batch with
    | ok changes =>
        exact ⟨changes, rfl⟩
    | error error =>
        rcases (ofBatch_eq_error h).left with ⟨change, hmem, huncountable⟩
        exact absurd huncountable (hall change hmem)

end EntityChanges

end PostingIndex
