import PostingIndex.Chain.ChangeList
import PostingIndex.Proofs.Calls

/-!
# The plain map behind an index

Without its blocks, an index is a map from entities to counts by game.  A ledger
is this map: it knows how many entities each catalogue has and what each of them
counts, and it takes the calls that an index takes.

## Contents

Ledgers and calls, the postings of a map of counts, the agreement of an index
with a ledger, and its preservation along every row of calls.
-/

namespace PostingIndex

abbrev GameCounts :=
  Std.TreeMap GameId UInt32

namespace GameCounts

def setCount (counts : GameCounts) (change : Change) : GameCounts :=
  if change.2 = 0 then counts.erase change.1 else counts.insert change.1 change.2

def override (counts : GameCounts) (changes : Changes) : GameCounts :=
  changes.toList.foldl setCount counts

def postings (counts : GameCounts) : List Posting :=
  counts.toList.map fun entry => { game := entry.1, count := entry.2 }

theorem mem_postings {counts : GameCounts} {posting : Posting} :
    posting ∈ counts.postings ↔ counts[posting.game]? = some posting.count := by
  rw [postings, List.mem_map, ← Std.TreeMap.mem_toList_iff_getElem?_eq_some]
  constructor
  · intro h
    rcases h with ⟨entry, hentry, heq⟩
    rw [← heq]
    exact hentry
  · intro h
    exact ⟨(posting.game, posting.count), h, rfl⟩

theorem postings_ascending (counts : GameCounts) :
    counts.postings.Pairwise fun left right => left.game < right.game := by
  rw [postings, List.pairwise_map]
  apply Std.TreeMap.ordered_keys_toList.imp
  intro left right hlt
  exact compareOfLessAndEq_eq_lt.mp hlt

theorem getElem?_setCount {counts : GameCounts} {change : Change} {game : GameId} :
    (counts.setCount change)[game]? =
      if change.1 = game then
        if change.2 = 0 then none else some change.2
      else
        counts[game]? := by
  unfold setCount
  by_cases hzero : change.2 = 0
  · simp [hzero, Std.TreeMap.getElem?_erase]
  · simp [hzero, Std.TreeMap.getElem?_insert]

theorem getElem?_foldl_setCount {counts : GameCounts} {changes : List Change}
    (h : Posting.AscendingChanges changes) {game : GameId} {count : UInt32} :
    (changes.foldl setCount counts)[game]? = some count ↔
      ((game, count) ∈ changes ∧ count ≠ 0) ∨
        (counts[game]? = some count ∧ ∀ change ∈ changes, change.1 ≠ game) := by
  induction changes generalizing counts with
  | nil =>
      simp
  | cons change rest ih =>
      rcases List.pairwise_cons.mp h with ⟨hlater, hrest⟩
      rw [List.foldl_cons, ih hrest, getElem?_setCount]
      by_cases hgame : change.1 = game
      · have hother : ∀ other ∈ rest, other.1 ≠ game := by
          intro other hmem heq
          exact UInt32.lt_irrefl _ (heq ▸ hgame ▸ hlater other hmem)
        have hnot : (game, count) ∉ rest := fun hmem => hother (game, count) hmem rfl
        rw [if_pos hgame]
        constructor
        · intro hcase
          rcases hcase with hin | ⟨hfound, _⟩
          · exact absurd hin.left hnot
          · by_cases hzero : change.2 = 0
            · rw [if_pos hzero] at hfound
              cases hfound
            · rw [if_neg hzero, Option.some.injEq] at hfound
              rw [← hfound, ← hgame]
              exact Or.inl ⟨List.mem_cons_self, hzero⟩
        · intro hcase
          rcases hcase with ⟨hin, hcount⟩ | ⟨_, hall⟩
          · rcases List.mem_cons.mp hin with heq | hin
            · rw [← heq, if_neg hcount]
              exact Or.inr ⟨rfl, hother⟩
            · exact absurd hin hnot
          · exact absurd hgame (hall change List.mem_cons_self)
      · have hpair : (game, count) ≠ change := fun heq =>
          hgame (congrArg Prod.fst heq).symm
        simp [hgame, hpair]

theorem postings_override {counts : GameCounts} (h : Posting.Ordered counts.postings)
    (changes : Changes) :
    (counts.override changes).postings =
      Posting.merge counts.postings changes.toList := by
  have hchanges := ascendingChanges_toList changes
  have hmem : ∀ posting, posting ∈ (counts.override changes).postings ↔
      posting ∈ Posting.merge counts.postings changes.toList := by
    intro posting
    rw [mem_postings, override, getElem?_foldl_setCount hchanges,
      Posting.mem_merge h hchanges, mem_postings]
  have hmerge := Posting.ordered_merge h hchanges
  apply Posting.Ordered.ext ⟨postings_ascending _, ?_⟩ hmerge hmem
  intro posting hposting
  exact hmerge.positive posting ((hmem posting).mp hposting)

end GameCounts

/-- A plain map from entities to counts, with the number of entities of each catalogue. -/
structure Ledger where
  types : List EntityType
  known : EntityType -> Nat
  counts : Entity -> GameCounts

namespace Ledger

def empty (types : List EntityType) : Ledger where
  types := types
  known := fun _ => 0
  counts := fun _ => ∅

/-- The catalogue is missing, or the turn of the entity has not come. -/
def Rejects (ledger : Ledger) (entity : Entity) : Prop :=
  entity.type ∉ ledger.types ∨ ledger.known entity.type < entity.id.toNat

instance (ledger : Ledger) (entity : Entity) : Decidable (ledger.Rejects entity) :=
  inferInstanceAs (Decidable (_ ∨ _))

/-- The ledger after a call; a call that is rejected changes nothing. -/
def call (ledger : Ledger) (request : Call) : Ledger :=
  let entity := request.entity
  if ledger.Rejects entity then
    ledger
  else
    { types := ledger.types
      known := Function.update ledger.known entity.type
        (max (ledger.known entity.type) (entity.id.toNat + 1))
      counts := Function.update ledger.counts entity
        ((ledger.counts entity).override request.changes) }

def calls (ledger : Ledger) (requests : List Call) : Ledger :=
  requests.foldl call ledger

theorem known_le_call (ledger : Ledger) (request : Call) (type : EntityType) :
    ledger.known type ≤ (ledger.call request).known type := by
  unfold call
  by_cases hrejects : ledger.Rejects request.entity
  · simp [hrejects]
  · by_cases hsame : type = request.entity.type
    · subst hsame
      simp only [if_neg hrejects, Function.update_self]
      exact Nat.le_max_left _ _
    · simp [hrejects, hsame]

theorem known_le_calls (ledger : Ledger) (requests : List Call) (type : EntityType) :
    ledger.known type ≤ (ledger.calls requests).known type := by
  induction requests generalizing ledger with
  | nil =>
      exact Nat.le_refl _
  | cons request rest ih =>
      exact Nat.le_trans (ledger.known_le_call request type) (ih (ledger.call request))

end Ledger

namespace Index

/-!
## Agreement
-/

/-- A soundly laid out index holds what a ledger says. -/
structure Records (index : Index) (layout : Layout) (ledger : Ledger) : Prop where
  addressed : index.Addressed layout
  types : index.heads.types = ledger.types
  extent : ∀ type, index.heads.extent type = ledger.known type
  postings : ∀ entity,
    chainPostings (layout entity.slot) = (ledger.counts entity).postings

namespace Records

variable {index : Index} {layout : Layout} {ledger : Ledger}

theorem reported_eq (h : index.Records layout ledger) {type : EntityType}
    (hknown : ledger.known type < 2 ^ 32) :
    (index.heads.reported type).toNat = ledger.known type := by
  rw [← h.extent] at hknown
  rw [HeadTable.toNat_reported hknown, h.extent]

theorem checkExtent_eq_ok (h : index.Records layout ledger) {entity : Entity}
    (hknown : ledger.known entity.type < 2 ^ 32) :
    index.heads.checkExtent entity = .ok () ↔ ¬ ledger.Rejects entity := by
  rw [HeadTable.checkExtent_eq_ok, h.types, Ledger.Rejects, not_or, not_not, Nat.not_lt,
    UInt32.le_iff_toNat_le, h.reported_eq hknown]

theorem exists_checkExtent_eq_error (h : index.Records layout ledger) {entity : Entity}
    (hknown : ledger.known entity.type < 2 ^ 32) :
    (∃ error, index.heads.checkExtent entity = .error error) ↔ ledger.Rejects entity := by
  rw [← not_iff_not, ← h.checkExtent_eq_ok hknown]
  cases index.heads.checkExtent entity with
  | error error =>
      simp
  | ok value =>
      simp

theorem update_eq_error (h : index.Records layout ledger) {entity : Entity}
    (hknown : ledger.known entity.type < 2 ^ 32) (changes : Changes) :
    (∃ error, index.update entity changes = .error error ∧ error.Returned) ↔
      ledger.Rejects entity := by
  rw [← h.exists_checkExtent_eq_error hknown]
  constructor
  · rintro ⟨error, herror, hreturned⟩
    rcases h.addressed.update_eq_error.mp herror with hcheck | ⟨_, _, haborted⟩
    · exact ⟨error, hcheck⟩
    · subst haborted
      exact hreturned.elim
  · rintro ⟨error, hcheck⟩
    refine ⟨error, h.addressed.update_eq_error.mpr (Or.inl hcheck), ?_⟩
    rcases HeadTable.checkExtent_eq_error hcheck with heq | heq
    · subst heq
      trivial
    · subst heq
      trivial

theorem exists_update (h : index.Records layout ledger) {entity : Entity} {changes : Changes}
    (hknown : ledger.known entity.type < 2 ^ 32) (hroom : index.HasRoom { entity, changes })
    (haccepts : ¬ ledger.Rejects entity) :
    ∃ result, index.update entity changes = .ok result := by
  cases hupdate : index.update entity changes with
  | ok result =>
      exact ⟨result, rfl⟩
  | error error =>
      have hcheck := (h.addressed.update_eq_error_of_hasRoom hroom).mp hupdate
      exact absurd ((h.exists_checkExtent_eq_error hknown).mp ⟨error, hcheck⟩) haccepts

theorem update (h : index.Records layout ledger) {entity : Entity}
    {changes : Changes} {result : Updated} (haccepts : ¬ ledger.Rejects entity)
    (hupdate : index.update entity changes = .ok result) :
    ∃ next, result.index.Records next (ledger.call { entity, changes }) := by
  rcases h.addressed.update hupdate with ⟨packing, _, _, hnext, hpostings⟩
  refine ⟨relaid layout entity packing, hnext, ?_, ?_, ?_⟩
  · rw [types_of_update hupdate, h.types]
    simp [Ledger.call, haccepts]
  · intro type
    rw [extent_of_update hupdate]
    by_cases htype : type = entity.type
    · simp [Ledger.call, haccepts, htype, h.extent]
    · simp [Ledger.call, haccepts, htype, h.extent]
  · intro other
    by_cases hsame : other = entity
    · have hordered : Posting.Ordered (ledger.counts entity).postings := by
        rw [← h.postings]
        exact (h.addressed.sound entity.slot).ordered
      rw [hsame, relaid_self, hpostings, h.postings, ← GameCounts.postings_override hordered]
      simp [Ledger.call, haccepts]
    · have hslot : other.slot ≠ entity.slot := fun hslots => hsame (Entity.slot_inj hslots)
      rw [relaid_of_ne _ _ hslot, h.postings]
      simp [Ledger.call, haccepts, hsame]

theorem call (h : index.Records layout ledger) {request : Call}
    (hknown : ledger.known request.entity.type < 2 ^ 32) (hroom : index.HasRoom request) :
    ∃ next, (index.call request).Records next (ledger.call request) := by
  rw [Index.call]
  by_cases hrejects : ledger.Rejects request.entity
  · rcases (h.update_eq_error hknown request.changes).mpr hrejects with ⟨error, herror, _⟩
    have hledger : ledger.call request = ledger := by
      simp [Ledger.call, hrejects]
    rw [herror, hledger]
    exact ⟨layout, h⟩
  · rcases h.exists_update hknown hroom hrejects with ⟨result, hupdate⟩
    rw [hupdate]
    exact h.update hrejects hupdate

/-- Along a row of calls for which numbers last, the ledger records the index. -/
theorem calls {requests : List Call} (h : index.Records layout ledger)
    (hlast : index.NumbersLast requests)
    (hknown : ∀ type, (ledger.calls requests).known type < 2 ^ 32) :
    ∃ next, (index.calls requests).Records next (ledger.calls requests) := by
  induction requests generalizing index layout ledger with
  | nil =>
      exact ⟨layout, h⟩
  | cons request rest ih =>
      have hnow := Nat.lt_of_le_of_lt (ledger.known_le_calls (request :: rest) _)
        (hknown request.entity.type)
      rcases h.call hnow hlast.left with ⟨next, hnext⟩
      exact ih hnext hlast.right hknown

end Records

end Index

end PostingIndex
