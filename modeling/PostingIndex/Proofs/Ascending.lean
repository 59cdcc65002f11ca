/-!
# Lists that ascend by a key

## Contents

A list whose 32-bit keys ascend strictly has no repetitions and is determined by
its members.
-/

namespace PostingIndex

namespace Ascending

variable {α : Type _} (key : α -> UInt32)

theorem nodup_of_key {items : List α}
    (h : items.Pairwise fun before after => key before < key after) : items.Nodup := by
  apply h.imp
  intro before after hlt heq
  rw [heq] at hlt
  exact UInt32.lt_irrefl _ hlt

theorem ext_of_key {left right : List α}
    (hleft : left.Pairwise fun before after => key before < key after)
    (hright : right.Pairwise fun before after => key before < key after)
    (h : ∀ item, item ∈ left ↔ item ∈ right) : left = right := by
  have hperm : left.Perm right :=
    (List.perm_ext_iff_of_nodup (nodup_of_key key hleft) (nodup_of_key key hright)).mpr h
  refine List.Perm.eq_of_pairwise ?_ hleft hright hperm
  intro before after _ _ hlt hgt
  exact absurd (UInt32.lt_trans hlt hgt) (UInt32.lt_irrefl _)

end Ascending

end PostingIndex
