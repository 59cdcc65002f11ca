import Mathlib.Algebra.GroupWithZero.Nat
import PostingIndex.Pool
import PostingIndex.Proofs.Ascending
import PostingIndex.Proofs.Outcome

/-!
# Block numbers that a pool hands out

A pool hands out free numbers first and new ones after that, and it aborts once
neither is left.  No number comes twice, and none that is in use is handed out.

## Contents

The laws of sets of numbers that handing out relies on, how many numbers a pool
has left, the numbers that come from asking it several times, and taking several
numbers back.
-/

namespace PostingIndex

namespace IdSet

theorem ext_mem {left right : IdSet} (h : ∀ id, id ∈ left ↔ id ∈ right) : left = right := by
  have hids : left.ids = right.ids :=
    Ascending.ext_of_key id left.ascending right.ascending h
  cases left
  cases right
  simpa using hids

theorem takeLeast?_eq_none {set : IdSet} : set.takeLeast? = none ↔ set.size = 0 := by
  rcases set with ⟨ids, hids⟩
  cases ids with
  | nil =>
      simp [takeLeast?, size]
  | cons id rest =>
      simp [takeLeast?, size]

theorem not_mem_of_size_eq_zero {set : IdSet} (h : set.size = 0) (id : BlockId) :
    id ∉ set := by
  rcases set with ⟨ids, hids⟩
  have hnil : ids = [] := List.length_eq_zero_iff.mp h
  subst hnil
  intro hmem
  cases hmem

theorem takeLeast?_eq_some {set rest : IdSet} {id : BlockId}
    (h : set.takeLeast? = some (id, rest)) :
    id ∈ set ∧ rest.size + 1 = set.size ∧
      ∀ other, other ∈ rest ↔ other ∈ set ∧ other ≠ id := by
  rcases set with ⟨ids, hids⟩
  cases ids with
  | nil =>
      simp [takeLeast?] at h
  | cons least others =>
      simp only [takeLeast?, Option.some.injEq, Prod.mk.injEq] at h
      rcases h with ⟨hid, hrest⟩
      subst hid
      subst hrest
      have hless := (List.pairwise_cons.mp hids).left
      refine ⟨List.mem_cons_self, rfl, ?_⟩
      intro other
      constructor
      · intro hmem
        exact ⟨List.mem_cons_of_mem _ hmem,
          fun heq => UInt32.lt_irrefl _ (heq ▸ hless other hmem)⟩
      · intro hmem
        rcases List.mem_cons.mp hmem.left with heq | hrest
        · exact absurd heq hmem.right
        · exact hrest

end IdSet

namespace Pool

/-- How many more numbers a pool can hand out: the free ones and all new ones. -/
def remaining (pool : Pool) : Nat :=
  pool.free.size + (2 ^ 32 - 1 - pool.numBlocks.toNat)

/-- All free numbers were handed out before. -/
def FreeWithin (pool : Pool) : Prop :=
  ∀ id ∈ pool.free, id < pool.numBlocks

/-!
## One number
-/

theorem allocate_eq_ok {pool after : Pool} {id : BlockId} :
    pool.allocate = .ok (id, after) ↔
      (∃ free, pool.free.takeLeast? = some (id, free) ∧ after = { pool with free }) ∨
        (pool.free.size = 0 ∧ id = pool.numBlocks ∧ after.free = pool.free ∧
          after.numBlocks.toNat = pool.numBlocks.toNat + 1) := by
  rw [← IdSet.takeLeast?_eq_none]
  unfold allocate
  cases pool.free.takeLeast? with
  | some taken =>
      rcases taken with ⟨least, free⟩
      simp only [Except.ok.injEq, Prod.mk.injEq, Option.some.injEq, reduceCtorEq, false_and,
        or_false]
      constructor
      · rintro ⟨hid, hafter⟩
        exact ⟨free, ⟨hid, rfl⟩, hafter.symm⟩
      · rintro ⟨found, ⟨hid, hfree⟩, hafter⟩
        exact ⟨hid, hfree ▸ hafter.symm⟩
  | none =>
      rcases after with ⟨numBlocks, free⟩
      simp only [Outcome.bind_eq_ok, Outcome.pure_eq_ok, Checked.succ_eq_ok, Prod.mk.injEq,
        Pool.mk.injEq, reduceCtorEq, false_and, exists_false, false_or, true_and]
      constructor
      · rintro ⟨next, hnext, hid, hcount, hfree⟩
        exact ⟨hid.symm, hfree.symm, hcount ▸ hnext⟩
      · rintro ⟨hid, hfree, hnext⟩
        exact ⟨numBlocks, hnext, hid.symm, rfl, hfree.symm⟩

theorem allocate_eq_error {pool : Pool} {error : IndexError} :
    pool.allocate = .error error ↔
      pool.remaining = 0 ∧ error = .aborted .addOverflow := by
  have hlt := pool.numBlocks.toNat_lt
  have hword : UInt32.size = 2 ^ 32 := rfl
  unfold allocate remaining
  cases hleast : pool.free.takeLeast? with
  | some taken =>
      have hsize : pool.free.size ≠ 0 := by
        intro hzero
        rw [IdSet.takeLeast?_eq_none.mpr hzero] at hleast
        cases hleast
      simp [hsize]
  | none =>
      have hsize := IdSet.takeLeast?_eq_none.mp hleast
      simp only [Outcome.bind_eq_error, Outcome.pure_ne_error, and_false, exists_false,
        or_false, Checked.succ_eq_error, hsize]
      apply and_congr_left'
      omega

/-- Each number that is handed out leaves one less. -/
theorem remaining_of_allocate {pool after : Pool} {id : BlockId}
    (h : pool.allocate = .ok (id, after)) : after.remaining + 1 = pool.remaining := by
  have hlt := after.numBlocks.toNat_lt
  rcases allocate_eq_ok.mp h with ⟨free, hleast, heq⟩ | ⟨hempty, _, hfree, hcount⟩
  · have hsize := (IdSet.takeLeast?_eq_some hleast).right.left
    rw [heq]
    simp only [remaining]
    omega
  · simp only [remaining, hfree]
    omega

theorem exists_allocate {pool : Pool} (h : 0 < pool.remaining) :
    ∃ id after, pool.allocate = .ok (id, after) := by
  cases hallocate : pool.allocate with
  | error error =>
      have hnone := (allocate_eq_error.mp hallocate).left
      omega
  | ok taken =>
      exact ⟨taken.1, taken.2, rfl⟩

/-!
## Several numbers
-/

inductive Takes (pool : Pool) : List BlockId -> Pool -> Prop where
  | done : Takes pool [] pool
  | next {ids : List BlockId} {id : BlockId} {rest after : Pool} :
      Takes pool ids rest -> rest.allocate = .ok (id, after) -> Takes pool (id :: ids) after

/-- What is true of numbers that any pool hands out, and of the pool afterwards. -/
structure Drawn (before : Pool) (ids : List BlockId) (after : Pool) : Prop where
  unused : ∀ id ∈ ids, id ∈ before.free ∨ (before.numBlocks ≤ id ∧ id < after.numBlocks)
  free : ∀ id ∈ after.free, id ∈ before.free
  freeSize : after.free.size = before.free.size - ids.length
  count : after.numBlocks.toNat =
    before.numBlocks.toNat + (ids.length - before.free.size)
  remaining : after.remaining + ids.length = before.remaining

structure Supplied (before : Pool) (ids : List BlockId) (after : Pool) : Prop where
  distinct : ids.Nodup
  within : ∀ id ∈ ids, id < after.numBlocks
  complete : ∀ id, before.numBlocks ≤ id -> id < after.numBlocks -> id ∈ ids
  free : ∀ id, id ∈ after.free ↔ id ∈ before.free ∧ id ∉ ids

namespace Drawn

variable {before rest after : Pool} {ids : List BlockId} {id : BlockId}

theorem le_numBlocks (h : Drawn before ids after) : before.numBlocks ≤ after.numBlocks := by
  rw [UInt32.le_iff_toNat_le, h.count]
  exact Nat.le_add_right _ _

theorem next (h : Drawn before ids rest) (hallocate : rest.allocate = .ok (id, after)) :
    Drawn before (id :: ids) after := by
  have hsize := h.freeSize
  have hcount := h.count
  have hremaining := h.remaining
  have hless := remaining_of_allocate hallocate
  rcases allocate_eq_ok.mp hallocate with ⟨free, hleast, heq⟩ | ⟨hempty, hid, hfree, hnext⟩
  · rcases IdSet.takeLeast?_eq_some hleast with ⟨hmem, hleft, hothers⟩
    subst heq
    constructor
    · exact List.forall_mem_cons.mpr ⟨Or.inl (h.free id hmem), h.unused⟩
    · intro other hother
      exact h.free other ((hothers other).mp hother).left
    · rw [List.length_cons]
      show free.size = _
      omega
    · rw [List.length_cons]
      show rest.numBlocks.toNat = _
      omega
    · rw [List.length_cons]
      omega
  · have hrises : rest.numBlocks < after.numBlocks := by
      rw [UInt32.lt_iff_toNat_lt, hnext]
      exact Nat.lt_succ_self _
    constructor
    · refine List.forall_mem_cons.mpr ⟨Or.inr (hid ▸ ⟨h.le_numBlocks, hrises⟩), ?_⟩
      intro other hother
      exact (h.unused other hother).imp_right fun hnew =>
        ⟨hnew.left, UInt32.lt_trans hnew.right hrises⟩
    · intro other hother
      exact h.free other (hfree ▸ hother)
    · rw [List.length_cons, hfree]
      omega
    · rw [List.length_cons]
      omega
    · rw [List.length_cons]
      omega

theorem lt_bound (h : Drawn before ids after) {bound : UInt32}
    (hfree : ∀ id ∈ before.free, id < bound) (hcount : after.numBlocks ≤ bound)
    (hmem : id ∈ ids) : id < bound := by
  rcases h.unused id hmem with hold | ⟨_, hnew⟩
  · exact hfree id hold
  · exact UInt32.lt_of_lt_of_le hnew hcount

end Drawn

theorem Takes.drawn {before after : Pool} {ids : List BlockId}
    (h : Takes before ids after) : Drawn before ids after := by
  induction h with
  | done =>
      exact ⟨by simp, by simp, by simp, by simp, by simp⟩
  | next _ hallocate ih =>
      exact ih.next hallocate

namespace Supplied

variable {before rest : Pool} {ids : List BlockId} {id : BlockId}

theorem next_free {free : IdSet} (h : Supplied before ids rest)
    (hdrawn : Drawn before ids rest) (hwithin : before.FreeWithin)
    (hleast : rest.free.takeLeast? = some (id, free)) :
    Supplied before (id :: ids) { rest with free } := by
  rcases IdSet.takeLeast?_eq_some hleast with ⟨hid, _, hfree⟩
  rcases (h.free id).mp hid with ⟨hidFree, hidNew⟩
  constructor
  · exact List.nodup_cons.mpr ⟨hidNew, h.distinct⟩
  · exact List.forall_mem_cons.mpr
      ⟨UInt32.lt_of_lt_of_le (hwithin id hidFree) hdrawn.le_numBlocks, h.within⟩
  · intro other hle hlt
    exact List.mem_cons_of_mem _ (h.complete other hle hlt)
  · intro other
    rw [hfree, h.free, List.mem_cons, not_or]
    constructor
    · rintro ⟨⟨hbefore, hnew⟩, hne⟩
      exact ⟨hbefore, hne, hnew⟩
    · rintro ⟨hbefore, hne, hnew⟩
      exact ⟨⟨hbefore, hnew⟩, hne⟩

theorem next_new {after : Pool} (h : Supplied before ids rest)
    (hempty : rest.free.size = 0) (hfree : after.free = rest.free)
    (hcount : after.numBlocks.toNat = rest.numBlocks.toNat + 1) :
    Supplied before (rest.numBlocks :: ids) after := by
  have hlt : rest.numBlocks < after.numBlocks := by
    rw [UInt32.lt_iff_toNat_lt]
    omega
  constructor
  · exact List.nodup_cons.mpr
      ⟨fun hmem => UInt32.lt_irrefl _ (h.within _ hmem), h.distinct⟩
  · exact List.forall_mem_cons.mpr
      ⟨hlt, fun other hmem => UInt32.lt_trans (h.within other hmem) hlt⟩
  · intro other hle hother
    by_cases heq : other = rest.numBlocks
    · rw [heq]
      exact List.mem_cons_self
    · have hne : other.toNat ≠ rest.numBlocks.toNat := fun hnat =>
        heq (UInt32.toNat.inj hnat)
      apply List.mem_cons_of_mem
      apply h.complete other hle
      rw [UInt32.lt_iff_toNat_lt] at hother ⊢
      omega
  · intro other
    have hnone : other ∉ rest.free := IdSet.not_mem_of_size_eq_zero hempty other
    rw [hfree]
    constructor
    · intro hmem
      exact absurd hmem hnone
    · rintro ⟨hbefore, hnew⟩
      exact absurd ((h.free other).mpr
        ⟨hbefore, fun hmem => hnew (List.mem_cons_of_mem _ hmem)⟩) hnone

end Supplied

theorem Takes.supplied {before after : Pool} {ids : List BlockId}
    (h : Takes before ids after) (hwithin : before.FreeWithin) :
    Supplied before ids after := by
  induction h with
  | done =>
      refine ⟨List.nodup_nil, by simp, ?_, by simp⟩
      intro id hle hlt
      exact absurd hlt (UInt32.not_lt.mpr hle)
  | next htakes hallocate ih =>
      rcases allocate_eq_ok.mp hallocate with
        ⟨free, hleast, heq⟩ | ⟨hempty, hid, hfree, hcount⟩
      · exact heq ▸ ih.next_free htakes.drawn hwithin hleast
      · exact hid ▸ ih.next_new hempty hfree hcount

/-!
## Taking numbers back
-/

theorem release_eq_ok {pool after : Pool} {id : BlockId} :
    pool.release id = .ok after ↔
      id < pool.numBlocks ∧ after = { pool with free := pool.free.insert id } := by
  unfold release
  by_cases hlt : id < pool.numBlocks
  · simp [hlt, eq_comm]
  · simp [hlt]

theorem foldlM_release_eq_ok {pool after : Pool} {ids : List BlockId} :
    ids.foldlM release pool = .ok after ↔
      (∀ id ∈ ids, id < pool.numBlocks) ∧
        after = { pool with free := ids.foldl IdSet.insert pool.free } := by
  induction ids generalizing pool with
  | nil =>
      rw [List.foldlM_nil, Outcome.pure_eq_ok]
      simp [eq_comm]
  | cons id rest ih =>
      simp only [List.foldlM_cons, Outcome.bind_eq_ok, release_eq_ok, List.forall_mem_cons,
        List.foldl_cons]
      constructor
      · rintro ⟨_, ⟨hlt, rfl⟩, hrest⟩
        rcases ih.mp hrest with ⟨hall, heq⟩
        exact ⟨⟨hlt, hall⟩, heq⟩
      · rintro ⟨⟨hlt, hall⟩, heq⟩
        exact ⟨_, ⟨hlt, rfl⟩, ih.mpr ⟨hall, heq⟩⟩

theorem foldlM_release_eq_error {pool : Pool} {ids : List BlockId} {error : IndexError} :
    ids.foldlM release pool = .error error ↔
      ∃ id, ids.find? (fun id => decide (pool.numBlocks ≤ id)) = some id ∧
        error = .aborted (.unallocated id) := by
  induction ids generalizing pool with
  | nil =>
      simp
  | cons id rest ih =>
      rw [List.foldlM_cons, List.find?_cons]
      by_cases hlt : id < pool.numBlocks
      · have hnot : decide (pool.numBlocks ≤ id) = false :=
          decide_eq_false (UInt32.not_le.mpr hlt)
        rw [release_eq_ok.mpr ⟨hlt, rfl⟩, hnot]
        exact ih
      · have hle : decide (pool.numBlocks ≤ id) = true :=
          decide_eq_true (UInt32.not_lt.mp hlt)
        rw [release, if_neg hlt, hle]
        simp [bind, Except.bind, eq_comm]

theorem mem_foldl_insert {set : IdSet} {ids : List BlockId} {id : BlockId} :
    id ∈ ids.foldl IdSet.insert set ↔ id ∈ set ∨ id ∈ ids := by
  induction ids generalizing set with
  | nil =>
      simp
  | cons head rest ih =>
      rw [List.foldl_cons, ih, IdSet.mem_insert, List.mem_cons, or_assoc, or_left_comm]

end Pool

end PostingIndex
