import Mathlib.Algebra.GroupWithZero.Nat
import PostingIndex.Index.Audit
import PostingIndex.Proofs.Queries

/-!
# Counting appearances

A posting list that can be read ascends strictly by 32-bit game numbers, so it
has at most 2 to the power 32 postings.  No count is greater than a 32-bit
number, so the sum of all counts fits into 64 bits, even on an index that no
audit has passed.

## Contents

The bound on the sum of counts, the sum in 64 bits, the expansion of a posting
list, and what counting the appearances of an entity answers.
-/

namespace PostingIndex

namespace Posting

variable {postings : List Posting}

/-!
## The sum of counts
-/

theorem total_append (left right : List Posting) :
    total (left ++ right) = total left + total right := by
  simp only [total, ← List.sum_eq_foldr, List.map_append, List.sum_append]

theorem total_le (postings : List Posting) : total postings ≤ postings.length * (2 ^ 32 - 1) := by
  induction postings with
  | nil =>
      exact Nat.le_refl 0
  | cons posting rest ih =>
      have hcount := posting.count.toNat_lt
      have hsum : total (posting :: rest) = posting.count.toNat + total rest := rfl
      rw [hsum, List.length_cons]
      omega

theorem Ordered.length_le (h : Ordered postings) : postings.length ≤ 2 ^ 32 := by
  have hgames : (games postings).Nodup := Ascending.nodup_of_key id h.pairwise_games
  have hlength := length_le_of_nodup_of_lt hgames fun game _ => game.toNat_lt
  rwa [games, List.length_map] at hlength

theorem Ordered.total_lt (h : Ordered postings) : total postings < 2 ^ 64 := by
  have hlength := h.length_le
  have htotal := total_le postings
  omega

theorem toNat_tally (h : total postings < 2 ^ 64) : (tally postings).toNat = total postings := by
  induction postings using List.reverseRecOn with
  | nil =>
      rfl
  | append_singleton before posting ih =>
      have hsum : total (before ++ [posting]) = total before + posting.count.toNat := by
        rw [total_append]
        rfl
      have hstep : tally (before ++ [posting]) = tally before + posting.count.toUInt64 := by
        rw [tally, List.foldl_append]
        rfl
      rw [hsum] at h
      rw [hsum, hstep, UInt64.toNat_add, UInt32.toNat_toUInt64, ih (by omega),
        Nat.mod_eq_of_lt h]

theorem Ordered.tally_add_lt {before after : List Posting} {posting : Posting}
    (h : Ordered (before ++ posting :: after)) :
    (tally before).toNat + posting.count.toNat < 2 ^ 64 := by
  have htotal := h.total_lt
  have hsum : total (posting :: after) = posting.count.toNat + total after := rfl
  rw [total_append, hsum] at htotal
  rw [toNat_tally (by omega)]
  omega

/-!
## The expansion
-/

theorem length_appearances (postings : List Posting) :
    (appearances postings).length = total postings := by
  simp only [appearances, List.length_flatMap, List.length_replicate, total,
    ← List.sum_eq_foldr]

theorem Ordered.pairwise_appearances (h : Ordered postings) :
    (appearances postings).Pairwise (· ≤ ·) := by
  rw [appearances, List.pairwise_flatMap]
  constructor
  · intro posting _
    exact List.pairwise_replicate.mpr (Or.inr (UInt32.le_refl _))
  · apply h.ascending.imp
    intro before after hlt left hleft right hright
    rw [List.eq_of_mem_replicate hleft, List.eq_of_mem_replicate hright]
    exact UInt32.le_of_lt hlt

theorem Ordered.mem_appearances (h : Ordered postings) {game : GameId} :
    game ∈ appearances postings ↔ game ∈ games postings := by
  simp only [appearances, games, List.mem_flatMap, List.mem_map]
  constructor
  · rintro ⟨posting, hmem, hgame⟩
    exact ⟨posting, hmem, (List.eq_of_mem_replicate hgame).symm⟩
  · rintro ⟨posting, hmem, hgame⟩
    have hcount : posting.count.toNat ≠ 0 := fun hzero =>
      h.positive posting hmem (UInt32.toNat_inj.mp hzero)
    exact ⟨posting, hmem, List.mem_replicate.mpr ⟨hcount, hgame.symm⟩⟩

theorem Ordered.eraseReps_appearances (h : Ordered postings) :
    (appearances postings).eraseReps = games postings := by
  apply Ascending.ext_of_key id (Ascending.pairwise_eraseReps h.pairwise_appearances)
    h.pairwise_games
  intro game
  rw [Ascending.mem_eraseReps, h.mem_appearances]

end Posting

namespace Index

/--
Wherever appearances can be counted, no addition of the sum goes beyond 64 bits,
and the sum is the length of the expanded list of games.  The expanded list never
falls, and without its repetitions it is the list of the games.
-/
theorem appearance_count_is_exact {index : Index} {entity : Entity} {count : UInt64}
    (h : index.appearanceCount entity = .ok count) :
    ∃ postings expanded distinct,
      index.postings entity = .ok postings ∧
      index.games true entity = .ok expanded ∧ index.games false entity = .ok distinct ∧
      (∀ before posting after, postings = before ++ posting :: after ->
        (Posting.tally before).toNat + posting.count.toNat < 2 ^ 64) ∧
      count.toNat = Posting.total postings ∧ count.toNat = expanded.length ∧
      expanded.Pairwise (· ≤ ·) ∧ expanded.eraseReps = distinct := by
  rcases Outcome.map_eq_ok.mp h with ⟨postings, hpostings, hcount⟩
  have hordered := ordered_of_postings hpostings
  have hexact : count.toNat = Posting.total postings := by
    rw [← hcount, Posting.toNat_tally hordered.total_lt]
  refine ⟨postings, Posting.appearances postings, Posting.games postings, hpostings, ?_, ?_,
    ?_, hexact, ?_, hordered.pairwise_appearances, hordered.eraseReps_appearances⟩
  · rw [games, hpostings]
    rfl
  · rw [games, hpostings]
    rfl
  · intro before posting after hsplit
    exact (hsplit ▸ hordered).tally_add_lt
  · rw [hexact, Posting.length_appearances]

/-- A player with two greatest counts on an index that no audit passes. -/
theorem appearance_count_is_exact_player :
    let index : Index :=
      { capacity := 1
        pool := { numBlocks := 1 }
        heads := { rows := [{ type := .player, heads := #[some 1] }] }
        arena := { blocks := #[
          { postings := [{ game := 9, count := 4294967295 }] },
          { postings := [{ game := 4, count := 4294967295 }], next := some 0 }] }
        usable := by decide }
    let entity : Entity := { type := .player, id := 0 }
    index.verify ≠ .ok () ∧ index.appearanceCount entity = .ok 8589934590 ∧
      ∃ postings expanded distinct,
        index.postings entity = .ok postings ∧
        index.games true entity = .ok expanded ∧ index.games false entity = .ok distinct ∧
        (∀ before posting after, postings = before ++ posting :: after ->
          (Posting.tally before).toNat + posting.count.toNat < 2 ^ 64) ∧
        (8589934590 : UInt64).toNat = Posting.total postings ∧
        (8589934590 : UInt64).toNat = expanded.length ∧
        expanded.Pairwise (· ≤ ·) ∧ expanded.eraseReps = distinct := by
  intro index entity
  have hverify : index.verify ≠ .ok () := by decide +kernel
  have hcount : index.appearanceCount entity = .ok 8589934590 := by decide +kernel
  exact ⟨hverify, hcount, appearance_count_is_exact hcount⟩

end Index

end PostingIndex
