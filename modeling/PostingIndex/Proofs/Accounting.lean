import Mathlib.Algebra.BigOperators.Ring.List
import PostingIndex.Proofs.Answers
import PostingIndex.Proofs.Soundness
import PostingIndex.Proofs.TightChains

/-!
# Statistics account for everything once

The statistics of an index are counted along its chains, and the pool keeps
counts of its own.  On an audited index both agree: every number that was handed
out is free or lies on exactly one chain, and no head starts an empty chain.

## Contents

Sums over the places of a head table, the greatest length among some, the
counters of one catalogue, and what all counters together account for.
-/

namespace PostingIndex

theorem sum_map_filter {α : Type _} {items : List α} {keep : α -> Bool} {count : α -> Nat}
    (h : ∀ item ∈ items, keep item = false -> count item = 0) :
    ((items.filter keep).map count).sum = (items.map count).sum := by
  induction items with
  | nil =>
      rfl
  | cons item rest ih =>
      rcases List.forall_mem_cons.mp h with ⟨hitem, hrest⟩
      cases hkeep : keep item with
      | true =>
          simp [hkeep, ih hrest]
      | false =>
          simp [hkeep, ih hrest, hitem hkeep]

theorem sum_map_flatMap {α β : Type _} (items : List α) (parts : α -> List β)
    (count : β -> Nat) :
    ((items.flatMap parts).map count).sum =
      (items.map fun item => ((parts item).map count).sum).sum := by
  rw [List.map_flatMap, List.flatMap, List.sum_flatten, List.map_map]
  rfl

theorem foldl_max_zero (numbers : List Nat) :
    (∀ number ∈ numbers, number ≤ numbers.foldl max 0) ∧
      (numbers.foldl max 0 = 0 ∨ numbers.foldl max 0 ∈ numbers) := by
  rw [List.foldl_max]
  cases hmax : numbers.max? with
  | none =>
      simp [List.max?_eq_none_iff.mp hmax]
  | some greatest =>
      rcases List.max?_eq_some_iff.mp hmax with ⟨hmem, hbound⟩
      simpa using ⟨hbound, Or.inr hmem⟩

theorem length_chainPostings_le {capacity : Nat} {chain : List StoredBlock}
    (h : SoundChain capacity chain) :
    (chainPostings chain).length ≤ capacity * chain.length := by
  have hlengths : ∀ length ∈ chainLengths chain, length ≤ capacity := by
    intro length hmem
    rcases List.mem_map.mp hmem with ⟨stored, hstored, heq⟩
    exact heq ▸ h.fits stored hstored
  have hsum := List.sum_le_card_nsmul _ _ hlengths
  rwa [sum_chainLengths, length_chainLengths, smul_eq_mul, Nat.mul_comm] at hsum

namespace Index

/-- The counters of one catalogue of an index with the given chains. -/
structure TypeAccounts (index : Index) (chains : Layout) (counters : TypeStatistics) : Prop where
  known : index.known counters.type = .ok counters.known
  nonEmpty : counters.nonEmpty =
    (index.heads.places counters.type).countP fun slot => !(chainPostings (chains slot)).isEmpty
  headed : counters.nonEmpty =
    (index.heads.places counters.type).countP fun slot => (index.heads.headAt slot).isSome
  postings : counters.postings =
    ((index.heads.places counters.type).map fun slot => (chainPostings (chains slot)).length).sum

/-- The counters of an index with the given chains. -/
structure Accounts (index : Index) (chains : Layout) (statistics : Statistics) : Prop where
  capacity : statistics.capacity = index.capacity
  types : statistics.types.map TypeStatistics.type = index.heads.types
  each : ∀ counters ∈ statistics.types, index.TypeAccounts chains counters
  totalPostings : statistics.totalPostings =
    (statistics.types.map TypeStatistics.postings).sum
  numBlocks : statistics.numBlocks = index.pool.numBlocks
  freeBlocks : statistics.freeBlocks.toNat = index.pool.free.size
  parted : statistics.liveBlocks + statistics.freeBlocks.toNat = statistics.numBlocks.toNat
  liveBlocks : statistics.liveBlocks =
    (index.heads.allPlaces.map fun slot => (chains slot).length).sum
  longest : ∀ slot, (chains slot).length ≤ statistics.longestChain
  attained : statistics.longestChain = 0 ∨
    ∃ slot ∈ index.heads.allPlaces, (chains slot).length = statistics.longestChain
  entitiesWithin : (statistics.types.map TypeStatistics.nonEmpty).sum ≤
    statistics.liveBlocks
  postingsWithin : statistics.totalPostings ≤
    statistics.capacity * statistics.liveBlocks

namespace Laid

variable {index : Index} {layout : Layout}

/-!
## Chains and heads
-/

theorem headAt_eq_none (h : index.Laid layout) {slot : Slot} :
    index.heads.headAt slot = none ↔ chainPostings (layout slot) = [] := by
  rw [← h.starts, chainHead_eq_none (h.sound slot).filled, List.length_eq_zero_iff]

theorem layout_eq_nil (h : index.Laid layout) {slot : Slot}
    (hhead : (index.heads.headAt slot).isSome = false) : layout slot = [] := by
  have hstart := h.starts slot
  rw [Option.isSome_eq_false_iff, Option.isNone_iff_eq_none] at hhead
  rw [hhead, chainHead, Option.map_eq_none_iff] at hstart
  exact List.head?_eq_none_iff.mp hstart

theorem isSome_headAt (h : index.Laid layout) (slot : Slot) :
    (index.heads.headAt slot).isSome = !(chainPostings (layout slot)).isEmpty := by
  rw [Bool.eq_iff_iff, Bool.not_eq_true', List.isEmpty_eq_false_iff, Ne, ← h.headAt_eq_none,
    Option.isSome_iff_ne_none]

theorem isSome_headAt_of_ne_nil (h : index.Laid layout) {slot : Slot}
    (hne : layout slot ≠ []) : (index.heads.headAt slot).isSome = true := by
  cases hhead : (index.heads.headAt slot).isSome with
  | false =>
      exact absurd (h.layout_eq_nil hhead) hne
  | true =>
      rfl

theorem mem_allPlaces_of_ne_nil (h : index.Laid layout) {slot : Slot}
    (hne : layout slot ≠ []) : slot ∈ index.heads.allPlaces := by
  rcases Option.isSome_iff_exists.mp (h.isSome_headAt_of_ne_nil hne) with ⟨_, hhead⟩
  exact HeadTable.mem_allPlaces.mpr (HeadTable.place_lt_extent hhead)

theorem sum_typeLayout (h : index.Laid layout) (type : EntityType)
    {count : List StoredBlock -> Nat} (hcount : count [] = 0) :
    ((index.typeLayout layout type).map count).sum =
      ((index.heads.places type).map fun slot => count (layout slot)).sum := by
  rw [typeLayout, List.map_map]
  -- A place without a head has no chain, so leaving it out loses nothing.
  apply sum_map_filter
  intro slot _ hhead
  rw [Function.comp_apply, h.layout_eq_nil hhead, hcount]

theorem mem_flatten_typeLayout (h : index.Laid layout) {chain : List StoredBlock} :
    chain ∈ (index.heads.types.map (index.typeLayout layout)).flatten ↔
      chain ≠ [] ∧ ∃ slot ∈ index.heads.allPlaces, layout slot = chain := by
  simp only [typeLayout, List.mem_flatten, List.mem_map, exists_exists_and_eq_and,
    List.mem_filter, HeadTable.allPlaces, List.mem_flatMap]
  constructor
  · rintro ⟨type, hmem, slot, ⟨hslot, hhead⟩, heq⟩
    refine ⟨?_, slot, ⟨type, hmem, hslot⟩, heq⟩
    intro hnil
    rw [h.isSome_headAt, heq, hnil] at hhead
    cases hhead
  · rintro ⟨hne, slot, ⟨type, hmem, hslot⟩, heq⟩
    subst heq
    exact ⟨type, hmem, slot, ⟨hslot, h.isSome_headAt_of_ne_nil hne⟩, rfl⟩

theorem chainBlocks_eq_sum (h : index.Laid layout) :
    index.chainBlocks layout =
      (index.heads.allPlaces.map fun slot => (layout slot).length).sum := by
  have hperm := (HeadTable.perm_map_slots index.nodup_types).map
    fun slot => (layout slot).length
  rw [List.map_map] at hperm
  rw [chainBlocks]
  refine hperm.sum_eq.trans (sum_map_filter ?_)
  intro slot _ hhead
  rw [h.layout_eq_nil hhead]
  rfl

/-!
## The counters
-/

theorem typeAccounts (h : index.Laid layout) {type : EntityType}
    (hmem : type ∈ index.heads.types) :
    index.TypeAccounts layout (index.typeCounters layout type) := by
  have hheaded : (index.typeCounters layout type).nonEmpty =
      (index.heads.places type).countP fun slot => (index.heads.headAt slot).isSome := by
    show (index.typeLayout layout type).length = _
    rw [typeLayout, List.length_map, List.countP_eq_length_filter]
  constructor
  · exact HeadTable.known_of_mem hmem
  · rw [hheaded]
    simp only [h.isSome_headAt]
    rfl
  · exact hheaded
  · exact h.sum_typeLayout type rfl

theorem sum_map_typeLayout (h : index.Laid layout) (count : List StoredBlock -> Nat)
    (hcount : count [] = 0) :
    (index.heads.types.map fun type =>
        ((index.typeLayout layout type).map count).sum).sum =
      (index.heads.allPlaces.map fun slot => count (layout slot)).sum := by
  rw [HeadTable.allPlaces, sum_map_flatMap]
  simp only [h.sum_typeLayout _ hcount]

theorem sum_nonEmpty_le (h : index.Laid layout) :
    ((index.counters layout).types.map TypeStatistics.nonEmpty).sum ≤
      (index.heads.allPlaces.map fun slot => (layout slot).length).sum := by
  rw [← h.sum_map_typeLayout List.length rfl]
  show ((index.heads.types.map (index.typeCounters layout)).map TypeStatistics.nonEmpty).sum ≤ _
  rw [List.map_map]
  apply List.sum_le_sum
  intro type hmem
  show (index.typeLayout layout type).length ≤ _
  rw [← List.length_map (f := List.length)]
  apply List.length_le_sum_of_one_le
  intro length hlength
  rcases List.mem_map.mp hlength with ⟨chain, hchain, heq⟩
  have hin : chain ∈ (index.heads.types.map (index.typeLayout layout)).flatten :=
    List.mem_flatten.mpr ⟨_, List.mem_map_of_mem hmem, hchain⟩
  exact heq ▸ List.length_pos_iff.mpr (h.mem_flatten_typeLayout.mp hin).left

theorem totalPostings_le (h : index.Laid layout) :
    (index.counters layout).totalPostings ≤
      index.capacity * (index.heads.allPlaces.map fun slot => (layout slot).length).sum := by
  have htotal : (index.counters layout).totalPostings =
      (index.heads.types.map fun type => ((index.typeLayout layout type).map
        fun chain => (chainPostings chain).length).sum).sum := by
    show ((index.heads.types.map (index.typeCounters layout)).map TypeStatistics.postings).sum = _
    rw [List.map_map]
    rfl
  rw [htotal, h.sum_map_typeLayout _ rfl, ← List.sum_map_mul_left]
  apply List.sum_le_sum
  intro slot _
  exact length_chainPostings_le (h.sound slot)

theorem length_le_longestChain (h : index.Laid layout) (slot : Slot) :
    (layout slot).length ≤ (index.counters layout).longestChain := by
  cases hchain : layout slot with
  | nil =>
      exact Nat.zero_le _
  | cons stored rest =>
      have hne : layout slot ≠ [] := hchain ▸ List.cons_ne_nil stored rest
      rw [← hchain]
      apply (foldl_max_zero _).left
      apply List.mem_map_of_mem
      exact h.mem_flatten_typeLayout.mpr ⟨hne, slot, h.mem_allPlaces_of_ne_nil hne, rfl⟩

theorem longestChain_attained (h : index.Laid layout) :
    (index.counters layout).longestChain = 0 ∨
      ∃ slot ∈ index.heads.allPlaces,
        (layout slot).length = (index.counters layout).longestChain := by
  rcases (foldl_max_zero ((index.heads.types.map (index.typeLayout layout)).flatten.map
    List.length)).right with hzero | hmem
  · exact Or.inl hzero
  · rcases List.mem_map.mp hmem with ⟨chain, hchain, hlongest⟩
    rcases h.mem_flatten_typeLayout.mp hchain with ⟨_, slot, hslot, heq⟩
    subst heq
    exact Or.inr ⟨slot, hslot, hlongest⟩

theorem accounts (h : index.Laid layout) : index.Accounts layout (index.counters layout) := by
  have hadds := h.chainBlocks_add_size_free
  have hfree : (UInt32.ofNat index.pool.free.size).toNat = index.pool.free.size :=
    UInt32.toNat_ofNat_of_lt' (Nat.lt_of_le_of_lt (Pool.size_free_le h.freeWithin)
      index.pool.numBlocks.toNat_lt)
  have hlive : (index.counters layout).liveBlocks =
      (index.heads.allPlaces.map fun slot => (layout slot).length).sum := by
    rw [← h.chainBlocks_eq_sum]
    exact (Nat.eq_sub_of_add_eq hadds).symm
  constructor
  · rfl
  · show (index.heads.types.map (index.typeCounters layout)).map TypeStatistics.type = _
    rw [List.map_map]
    exact List.map_id _
  · intro counters hmem
    rcases List.mem_map.mp hmem with ⟨type, htype, heq⟩
    exact heq ▸ h.typeAccounts htype
  · rfl
  · rfl
  · exact hfree
  · rw [hlive, ← h.chainBlocks_eq_sum]
    show _ + (UInt32.ofNat index.pool.free.size).toNat = index.pool.numBlocks.toNat
    rw [hfree, hadds]
  · exact hlive
  · exact h.length_le_longestChain
  · exact h.longestChain_attained
  · rw [hlive]
    exact h.sum_nonEmpty_le
  · rw [hlive]
    exact h.totalPostings_le

end Laid

/--
On an audited index the statistics can be computed, and they account for all
entities, postings and blocks.  The chains are those that the index answers.
-/
theorem statistics_account_once {index : Index} (hverify : index.verify = .ok ()) :
    ∃ statistics chains, index.statistics = .ok statistics ∧
      index.Accounts chains statistics ∧
      (∀ slot, (index.walkFrom (index.heads.headAt slot)).result = .ok (chains slot)) ∧
      ∀ entity, entity.type ∈ index.heads.types ->
        index.postings entity = .ok (chainPostings (chains entity.slot)) ∧
          index.chainLength entity = .ok (chains entity.slot).length := by
  have hlaid := verify_eq_ok.mp hverify
  refine ⟨_, index.readLayout, hlaid.statistics_eq, hlaid.accounts, hlaid.walkFrom_result, ?_⟩
  intro entity hmem
  exact ⟨hlaid.postings_eq hmem, hlaid.chainLength_eq hmem⟩

/-- Two of three players and no team have chains, and one of four blocks is free. -/
theorem statistics_account_once_players :
    let index : Index :=
      { capacity := 1
        pool := Pool.ofParts 4 [1]
        heads := { rows := [{ type := .player, heads := #[some 0, none, some 3] },
          { type := .team, heads := #[none] }] }
        arena := { blocks := #[
          { postings := [{ game := 4, count := 1 }], next := some 2 },
          {},
          { postings := [{ game := 7, count := 2 }] },
          { postings := [{ game := 4, count := 1 }] }] }
        usable := by decide }
    index.verify = .ok () ∧
      index.statistics = .ok {
        capacity := 1
        types := [{ type := .player, known := 3, nonEmpty := 2, postings := 3 },
          { type := .team, known := 1, nonEmpty := 0, postings := 0 }]
        totalPostings := 3
        numBlocks := 4
        freeBlocks := 1
        liveBlocks := 3
        longestChain := 2 } ∧
      ∃ statistics chains, index.statistics = .ok statistics ∧
        index.Accounts chains statistics ∧
        (∀ slot, (index.walkFrom (index.heads.headAt slot)).result = .ok (chains slot)) ∧
        ∀ entity, entity.type ∈ index.heads.types ->
          index.postings entity = .ok (chainPostings (chains entity.slot)) ∧
            index.chainLength entity = .ok (chains entity.slot).length := by
  intro index
  have hverify : index.verify = .ok () := by decide +kernel
  exact ⟨hverify, by decide +kernel, statistics_account_once hverify⟩

end Index

end PostingIndex
