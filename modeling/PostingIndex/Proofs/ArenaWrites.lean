import Mathlib.Algebra.GroupWithZero.Nat
import PostingIndex.Arena

/-!
# Reading an arena after it was written

A block that is written is read back, and every other block of the arena is
read as before.  The same holds of rows of writes to distinct numbers and of
blocks that are cleared.

## Contents

One write, one clearing, several writes, several clearings, properties that all
blocks of an arena share, and arenas as sources of blocks.
-/

namespace PostingIndex

namespace Arena

theorem get?_eq_some_lt {arena : Arena} {id : BlockId} {block : Block}
    (h : arena.get? id = some block) : id.toNat < arena.size :=
  (Array.getElem?_eq_some_iff.mp h).choose

theorem toNat_ne {id other : BlockId} (h : other ≠ id) : id.toNat ≠ other.toNat :=
  fun hnat => h (UInt32.toNat.inj hnat).symm

/-!
## Single blocks
-/

theorem size_growTo {blocks : Array Block} {size : Nat} (h : blocks.size ≤ size) :
    (growTo blocks size).size = size := by
  rw [growTo, Array.size_append, Array.size_replicate]
  omega

@[simp]
theorem size_write (arena : Arena) (id : BlockId) (block : Block) :
    (arena.write id block).size = max arena.size (id.toNat + 1) := by
  unfold write size
  by_cases h : id.toNat < arena.blocks.size
  · rw [if_pos h, Array.size_setIfInBounds]
    omega
  · rw [if_neg h, Array.size_push, size_growTo (Nat.not_lt.mp h)]
    omega

@[simp]
theorem get?_write_self (arena : Arena) (id : BlockId) (block : Block) :
    (arena.write id block).get? id = some block := by
  unfold write get?
  by_cases h : id.toNat < arena.blocks.size
  · rw [if_pos h]
    simp [h]
  · rw [if_neg h, Array.getElem?_push, if_pos (size_growTo (Nat.not_lt.mp h)).symm]

theorem get?_write_ne {arena : Arena} {id other : BlockId} (block : Block)
    (hne : other ≠ id) (hlt : other.toNat < arena.size) :
    (arena.write id block).get? other = arena.get? other := by
  have hnat := toNat_ne hne
  unfold size at hlt
  unfold write get?
  by_cases h : id.toNat < arena.blocks.size
  · rw [if_pos h, Array.getElem?_setIfInBounds_ne hnat]
  · rw [if_neg h, Array.getElem?_push, size_growTo (Nat.not_lt.mp h), if_neg (by omega),
      growTo, Array.getElem?_append_left hlt]

@[simp]
theorem size_clear (arena : Arena) (id : BlockId) : (arena.clear id).size = arena.size := by
  unfold clear size
  rw [Array.size_setIfInBounds]

theorem get?_clear_ne {arena : Arena} {id other : BlockId} (hne : other ≠ id) :
    (arena.clear id).get? other = arena.get? other := by
  unfold clear get?
  rw [Array.getElem?_setIfInBounds_ne (toNat_ne hne)]

/-!
## Rows of blocks
-/

theorem writeAll_cons (arena : Arena) (stored : StoredBlock) (rest : List StoredBlock) :
    arena.writeAll (stored :: rest) =
      (arena.write stored.id stored.block).writeAll rest :=
  rfl

theorem size_le_size_writeAll (arena : Arena) (writes : List StoredBlock) :
    arena.size ≤ (arena.writeAll writes).size := by
  induction writes generalizing arena with
  | nil =>
      exact Nat.le_refl _
  | cons stored rest ih =>
      rw [writeAll_cons]
      have hrest := ih (arena.write stored.id stored.block)
      rw [size_write] at hrest
      omega

theorem size_writeAll_le {arena : Arena} {writes : List StoredBlock} {bound : Nat}
    (harena : arena.size ≤ bound) (hwrites : ∀ stored ∈ writes, stored.id.toNat < bound) :
    (arena.writeAll writes).size ≤ bound := by
  induction writes generalizing arena with
  | nil =>
      exact harena
  | cons stored rest ih =>
      rw [writeAll_cons]
      have hhead := hwrites stored (by simp)
      apply ih
      · rw [size_write]
        omega
      · intro other hmem
        exact hwrites other (List.mem_cons_of_mem _ hmem)

theorem size_writeAll_lt {arena : Arena} {writes : List StoredBlock} {bound : UInt32}
    (harena : arena.size < 2 ^ 32) (hwrites : ∀ stored ∈ writes, stored.id < bound) :
    (arena.writeAll writes).size < 2 ^ 32 := by
  have hbound := bound.toNat_lt
  have hle : (arena.writeAll writes).size ≤ max arena.size bound.toNat := by
    apply size_writeAll_le (Nat.le_max_left _ _)
    intro stored hmem
    exact Nat.lt_of_lt_of_le (UInt32.lt_iff_toNat_lt.mp (hwrites stored hmem))
      (Nat.le_max_right _ _)
  omega

theorem get?_writeAll_of_not_mem {arena : Arena} {writes : List StoredBlock}
    {id : BlockId} (hmem : id ∉ writes.map StoredBlock.id) (hlt : id.toNat < arena.size) :
    (arena.writeAll writes).get? id = arena.get? id := by
  induction writes generalizing arena with
  | nil =>
      rfl
  | cons stored rest ih =>
      rw [List.map_cons, List.mem_cons, not_or] at hmem
      rw [writeAll_cons, ih hmem.right, get?_write_ne _ hmem.left hlt]
      rw [size_write]
      omega

theorem get?_writeAll_of_mem {arena : Arena} {writes : List StoredBlock}
    (hnodup : (writes.map StoredBlock.id).Nodup) {stored : StoredBlock}
    (hmem : stored ∈ writes) :
    (arena.writeAll writes).get? stored.id = some stored.block := by
  induction writes generalizing arena with
  | nil =>
      cases hmem
  | cons head rest ih =>
      rcases List.nodup_cons.mp hnodup with ⟨hnew, hrest⟩
      rw [writeAll_cons]
      rcases List.mem_cons.mp hmem with heq | hmem
      · subst heq
        rw [get?_writeAll_of_not_mem hnew, get?_write_self]
        rw [size_write]
        omega
      · exact ih hrest hmem

@[simp]
theorem size_clearAll (arena : Arena) (ids : List BlockId) :
    (arena.clearAll ids).size = arena.size := by
  induction ids generalizing arena with
  | nil =>
      rfl
  | cons id rest ih =>
      rw [clearAll, List.foldl_cons]
      exact (ih _).trans (size_clear arena id)

theorem get?_clearAll_of_not_mem {arena : Arena} {ids : List BlockId} {id : BlockId}
    (hmem : id ∉ ids) : (arena.clearAll ids).get? id = arena.get? id := by
  induction ids generalizing arena with
  | nil =>
      rfl
  | cons head rest ih =>
      rw [List.mem_cons, not_or] at hmem
      rw [clearAll, List.foldl_cons]
      exact (ih hmem.right).trans (get?_clear_ne hmem.left)

/-!
## Properties of all blocks
-/

def Each (property : Block -> Prop) (arena : Arena) : Prop :=
  ∀ block ∈ arena.blocks, property block

theorem each_empty (property : Block -> Prop) : Each property empty := by
  intro block hmem
  simp [empty] at hmem

theorem each_write {property : Block -> Prop} {arena : Arena} {id : BlockId}
    {block : Block} (harena : arena.Each property) (hempty : property Block.empty)
    (hblock : property block) : (arena.write id block).Each property := by
  intro other hmem
  unfold write at hmem
  by_cases h : id.toNat < arena.blocks.size
  · rw [if_pos h] at hmem
    rcases Array.mem_or_eq_of_mem_setIfInBounds hmem with hold | heq
    · exact harena other hold
    · exact heq ▸ hblock
  · rw [if_neg h] at hmem
    rcases Array.mem_push.mp hmem with hmem | heq
    · rcases Array.mem_append.mp hmem with hold | hnew
      · exact harena other hold
      · exact (Array.mem_replicate.mp hnew).right ▸ hempty
    · exact heq ▸ hblock

theorem each_clear {property : Block -> Prop} {arena : Arena} {id : BlockId}
    (harena : arena.Each property) (hempty : property Block.empty) :
    (arena.clear id).Each property := by
  intro other hmem
  rcases Array.mem_or_eq_of_mem_setIfInBounds hmem with hold | heq
  · exact harena other hold
  · exact heq ▸ hempty

theorem each_writeAll {property : Block -> Prop} {arena : Arena}
    {writes : List StoredBlock} (harena : arena.Each property)
    (hempty : property Block.empty)
    (hwrites : ∀ stored ∈ writes, property stored.block) :
    (arena.writeAll writes).Each property := by
  induction writes generalizing arena with
  | nil =>
      exact harena
  | cons stored rest ih =>
      rw [writeAll_cons]
      apply ih
      · exact each_write harena hempty (hwrites stored (by simp))
      · intro other hmem
        exact hwrites other (List.mem_cons_of_mem _ hmem)

theorem each_clearAll {property : Block -> Prop} {arena : Arena} {ids : List BlockId}
    (harena : arena.Each property) (hempty : property Block.empty) :
    (arena.clearAll ids).Each property := by
  induction ids generalizing arena with
  | nil =>
      exact harena
  | cons id rest ih =>
      rw [clearAll, List.foldl_cons]
      exact ih (each_clear harena hempty)

end Arena

/-!
## Arenas as sources
-/

theorem Arena.toNat_count {arena : Arena} (h : arena.size < 2 ^ 32) :
    arena.count.toNat = arena.size :=
  UInt32.toNat_ofNat_of_lt' h

theorem Arena.count_le_size (arena : Arena) : arena.count.toNat ≤ arena.size := by
  rw [count, UInt32.toNat_ofNat']
  exact Nat.mod_le _ _

theorem load_source_eq_ok {arena : Arena} {id : BlockId} {block : Block} :
    arena.source.load id = .ok block ↔ arena.get? id = some block := by
  cases h : arena.get? id with
  | none =>
      simp [Arena.source, h]
  | some found =>
      simp [Arena.source, h]

theorem stored_of_get? {arena : Arena} (hsize : arena.size < 2 ^ 32) {id : BlockId}
    {block : Block} (h : arena.get? id = some block) :
    id.toNat < arena.source.count ∧ arena.source.load id = .ok block := by
  refine ⟨?_, load_source_eq_ok.mpr h⟩
  show id.toNat < arena.count.toNat
  rw [Arena.toNat_count hsize]
  exact Arena.get?_eq_some_lt h

end PostingIndex
